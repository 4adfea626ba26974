import CellMachine.Assembly.Image
import CellMachine.Cli.Action
import CellMachine.Cli.Command
import CellMachine.Image
import CellMachine.Listing
import CellMachine.Machine.Run
import CellMachine.Records
import CellMachine.SelfTest

/-!
# CellMachine.Cli.Basic

What each command does.

* `runProgram`       — load a program, run it, and report the final state.
* `assembleFile`     — a source file to an image file.
* `disassembleFile`  — the listing of an image file.
* `ofArgs`           — the action of a list of arguments.

The output of programs goes to standard output, and reports go to standard error.
-/

namespace CellMachine.Cli

def withConfig (file : Option String) (next : Config → Action) : Action :=
  match file with
  | none => next {}
  | some name =>
    .read name fun
      | .error e => .fail s!"Failed to load config {name}: {e.message}"
      | .ok text =>
        match Config.parse? text with
        | some config => next config
        | none => .fail s!"Failed to load config {name}: not the settings of a machine"

def withSource (name : String) (next : Image → Action) : Action :=
  .read name fun
    | .error e => .fail s!"Failed to read file: {e.message}"
    | .ok source =>
      match assemble source with
      | .ok image => next image
      | .error e => .fail s!"Assembly error: {e.message}"

def withImage (name : String) (next : Image → Action) : Action :=
  .read name fun contents =>
    let image : Except ImageError Image := match contents with
      | .ok text => Image.decode name text
      | .error e => .error (.io name e)
    match image with
    | .ok image => next image
    | .error e => .fail s!"Failed to load image: {e.message}"

/-- The program in a file, a source or an image by its name. There must be at least one cell. -/
def withProgram (name : String) (next : Image → Action) : Action :=
  let checked (image : Image) : Action :=
    if image.isEmpty then .fail "No instructions to execute" else next image
  if FileName.isSource name then
    withSource name fun image => .report s!"📝 Assembled {image.size} cells\n" (checked image)
  else
    withImage name fun image => .report s!"📂 Loaded {image.size} cells\n" (checked image)

def stateReport (m : Machine) : String :=
  let last := match m.lastInstr with
    | some i => "Last instruction: " ++ i.text ++ "\n"
    | none => ""
  s!"\n━━━ Result ━━━\nCycles: {m.cycles}\nState: {m.status.name}\nPC: {m.pc}  SP: {m.sp}\n" ++
    last ++ "Registers: " ++ m.regs.line ++ "\n"

/-- How a run ends, apart from its state. -/
def runEnd (maxCycles : Nat) (m : Machine) (result : Except Fault UInt64) : Action :=
  match result with
  | .error e => .fail s!"CPU error at PC={m.pc}: {e.message}"
  | .ok _ =>
    if m.isRunning then
      .report (s!"\n⚠️  Reached max cycles limit ({maxCycles}). " ++
        "Use --max-cycles to increase.\n") (.exit 0)
    else .exit 0

/-- The settings that the options of a run make of `config`. -/
def RunOptions.configure (o : RunOptions) (config : Config) : Config where
  debug := config.debug || o.trace
  unknownOpcode := if o.ignoreUnknown then .ignore else config.unknownOpcode

def runImage (o : RunOptions) (config : Config) (image : Image) : Action :=
  let (m, result) := (Machine.new (.ofImage o.memory image) config).runLimited o.maxCycles
  let state := if o.dumpState then m.toCore.snapshot ++ "\n" else ""
  .print (m.out.text ++ state) <| .report (stateReport m) <| runEnd o.maxCycles m result

def runProgram (o : RunOptions) : Action :=
  withConfig o.config fun config =>
    .report s!"🔧 Running: {o.program}\n" <|
      withProgram o.program (runImage o (o.configure config))

/-- Where an image goes if no name is given. -/
def defaultOutput (source : String) : String :=
  let stem := if FileName.isSource source then source.toList.take (source.length - 4)
    else source.toList
  String.ofList stem ++ ".img"

def assembleFile (source : String) (output : Option String) : Action :=
  let name := output.getD (defaultOutput source)
  .report s!"📝 Assembling: {source} → {name}\n" <|
    withSource source fun image =>
      .report s!"✓ Assembled {image.size} cells\n" <|
        .write name (image.encode name) fun
          | .ok () => .report s!"✓ Saved to {name}\n" (.exit 0)
          | .error e => .fail ("Failed to save image: " ++ (ImageError.io name e).message)

def disassembleFile (name : String) : Action :=
  withImage name fun image => .print (Listing.render image.toList ++ "\n") (.exit 0)

def selfTest : Action :=
  let (passed, text) := SelfTest.report
  .print text (.exit (if passed then 0 else 1))

def about : Action :=
  .print ("regvm v0.1.0\nA register virtual machine with decimal-float registers\n\n" ++
    "Use --help for available commands\n") (.exit 0)

def Command.action : Command → Action
  | .run options => runProgram options
  | .assemble source output => assembleFile source output
  | .disassemble image => disassembleFile image
  | .test => Cli.selfTest
  | .about => Cli.about

def ofArgs (args : List String) : Action :=
  match Command.parse? args with
  | some command => command.action
  | none => .report "error: unknown arguments\n" (.exit 2)

end CellMachine.Cli
