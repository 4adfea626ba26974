import CellMachine.Text.Numeral

/-!
# CellMachine.Cli.Command

The commands and their arguments.

* `Command`        — a command with its settings.
* `Command.parse?` — the command of a list of arguments.
-/

namespace CellMachine.Cli

structure RunOptions where
  program : String
  maxCycles : Nat := 10000
  trace : Bool := false
  /-- Memory has at least this many cells. -/
  memory : Nat := 1024
  config : Option String := none
  ignoreUnknown : Bool := false
  dumpState : Bool := false
  deriving DecidableEq, Repr

inductive Command where
  | run (options : RunOptions)
  | assemble (source : String) (output : Option String)
  | disassemble (image : String)
  | test
  | about
  deriving DecidableEq, Repr

namespace Command

/-- An unsigned 64-bit number, with an optional plus sign. -/
def count? (text : String) : Option Nat :=
  let digits := match text.toList with
    | '+' :: rest => rest
    | cs => cs
  let n := Text.decimalValue digits
  if !digits.isEmpty && digits.all Char.isDigit && n < UInt64.size then some n else none

/-- An argument that is no option; a single dash is a name like any other. -/
def isOperand (arg : String) : Bool := !arg.startsWith "-" || arg == "-"

/-- Settings of `run`; the first operand is the program, and there is no other. -/
def runArgs? (options : RunOptions) (program : Option String) : List String → Option RunOptions
  | [] => program.map fun program => { options with program }
  | "--trace" :: rest | "-t" :: rest => runArgs? { options with trace := true } program rest
  | "--ignore-unknown" :: rest => runArgs? { options with ignoreUnknown := true } program rest
  | "--dump-state" :: rest => runArgs? { options with dumpState := true } program rest
  | "--max-cycles" :: value :: rest | "-m" :: value :: rest => do
    runArgs? { options with maxCycles := ← count? value } program rest
  | "--memory" :: value :: rest => do
    runArgs? { options with memory := ← count? value } program rest
  | "--config" :: value :: rest | "-c" :: value :: rest =>
    runArgs? { options with config := some value } program rest
  | arg :: rest =>
    if isOperand arg && program.isNone then runArgs? options (some arg) rest else none

/-- The source and the output of `asm`. -/
def assembleArgs? (source output : Option String) : List String → Option Command
  | [] => source.map fun source => .assemble source output
  | "--output" :: value :: rest | "-o" :: value :: rest => assembleArgs? source (some value) rest
  | arg :: rest =>
    if isOperand arg && source.isNone then assembleArgs? (some arg) output rest else none

def parse? : List String → Option Command
  | [] => some .about
  | ["test"] => some .test
  | "run" :: args => (runArgs? { program := "" } none args).map .run
  | "asm" :: args => assembleArgs? none none args
  | ["disasm", image] => if isOperand image then some (.disassemble image) else none
  | _ => none

end Command

end CellMachine.Cli
