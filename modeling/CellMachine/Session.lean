import CellMachine.Assembly.Image
import CellMachine.Listing
import CellMachine.Machine.Run

/-!
# CellMachine.Session

A machine that is taken apart between calls. A session keeps the memory, the processor, the output
and the settings, puts a machine together for each call that executes instructions, and keeps the
parts of the machine that the call leaves.

* `Session.load`, `Session.loadSource` — a new program, with everything started afresh.
* `Session.step`, `Session.run`        — execution.
* `Session.reset`                      — the current program started afresh.
-/

namespace CellMachine

structure Session where
  mem : Memory
  /-- What `reset` loads. -/
  program : Array Word
  core : Core
  output : String
  config : Config
  deriving DecidableEq, Repr

inductive SessionError where
  | assembly (error : Assembly.Error)
  | imageTooLarge (size available : Nat)
  | fault (error : Fault)
  deriving DecidableEq

def SessionError.message : SessionError → String
  | .assembly error => error.message
  | .imageTooLarge size available => s!"image size {size} exceeds memory size {available}"
  | .fault error => error.message

namespace Session

def defaultSize : Nat := 1024

/-- A session over `size` cells; zero asks for the default. -/
def new (size : Nat) : Session :=
  let size := if size = 0 then defaultSize else size
  { mem := .zeros size, program := #[], core := .initial size, output := "", config := {} }

/-- The machine that the parts of a session make up. -/
def machine (s : Session) : Machine := .resume s.mem s.core s.config { text := s.output }

def keep (s : Session) (m : Machine) : Session :=
  { s with mem := m.mem, core := m.toCore, output := m.out.text }

def reset (s : Session) : Session :=
  let mem := Memory.ofImage s.mem.size s.program
  { s with mem, core := .initial mem.size, output := "" }

/-- Loads a program and resets. The result is its number of cells. -/
def load (s : Session) (image : Array Word) : Session × Except SessionError Nat :=
  if s.mem.size < image.size then (s, .error (.imageTooLarge image.size s.mem.size))
  else ({ s with program := image }.reset, .ok image.size)

def loadSource (s : Session) (source : String) : Session × Except SessionError Nat :=
  match assemble source with
  | .ok image => s.load image
  | .error e => (s, .error (.assembly e))

/-- One step. The result is the text of the instruction. -/
def step (s : Session) : Session × Except SessionError String :=
  let (m, result) := s.machine.step
  let text : Except Fault String := result.map fun i =>
    i.elim "unknown opcode skipped" Instruction.text
  (s.keep m, text.mapError .fault)

/-- At most `max` steps. The result is the number of cycles since the reset. -/
def run (s : Session) (max : Nat) : Session × Except SessionError UInt64 :=
  let (m, result) := s.machine.runLimited max
  (s.keep m, (result.map fun _ => m.cycles).mapError .fault)

def setDebug (s : Session) (debug : Bool) : Session :=
  { s with config := { s.config with debug } }

/-- The output so far, which is then forgotten. -/
def takeOutput (s : Session) : Session × String := ({ s with output := "" }, s.output)

def register (s : Session) (i : Nat) : Word := s.core.regs.r.toArray.getD i 0

def cell (s : Session) (i : Nat) : Word := s.mem.cells.getD i 0

end Session

end CellMachine
