import CellMachine.Instruction
import CellMachine.Machine.Fault
import CellMachine.Machine.Sink

/-!
# CellMachine.Machine.Basic

The register machine and its parts.

* `Core`    — the processor: registers, pointers, the last fetched cells, the run state.
* `Machine` — a processor with its memory, its settings and its output.

The program counter stands on the last cell of the instruction before: it is `-1` at first, and
every step moves it on before it fetches.
-/

namespace CellMachine

/-- What to do with a cell that holds no opcode where one is fetched. -/
inductive UnknownOpcode where
  | fault
  | ignore
  deriving DecidableEq, Repr

structure Config where
  debug : Bool := false
  unknownOpcode : UnknownOpcode := .fault
  deriving DecidableEq, Repr

/-- Everything but memory, settings and output; this is what a snapshot keeps. -/
structure Core where
  regs : Registers := {}
  pc : Word := -1
  sp : Word
  /-- The opcode cell fetched last. -/
  inst : Word := 0
  /-- The first operand cell fetched last. -/
  dest : Word := 0
  /-- The second operand cell fetched last. -/
  src : Word := 0
  status : Status := .running
  cycles : UInt64 := 0
  lastInstr : Option Instruction := none
  deriving DecidableEq, Repr

/-- The processor before the first step over `size` cells; the stack pointer is on the last one. -/
def Core.initial (size : Nat) : Core := { sp := Int64.ofNat size - 1 }

structure Machine extends Core where
  mem : Memory
  config : Config := {}
  out : Sink := {}
  deriving DecidableEq, Repr

namespace Machine

def new (mem : Memory) (config : Config := {}) (out : Sink := {}) : Machine :=
  { Core.initial mem.size with mem, config, out }

def resume (mem : Memory) (core : Core) (config : Config) (out : Sink) : Machine :=
  { core with mem, config, out }

def isRunning (m : Machine) : Bool := m.status == .running

def isHalted (m : Machine) : Bool := m.status == .halted

/-- The address of the next fetch. -/
def next (m : Machine) : Word := m.pc + 1

def setDebug (m : Machine) (debug : Bool) : Machine :=
  { m with config := { m.config with debug } }

/-- The processor starts again; memory, settings and output stay. -/
def reset (m : Machine) : Machine := { m with toCore := .initial m.mem.size }

/-- Zeroes memory, copies `image` to its start and resets. An image that is too large leaves memory
zeroed and the processor as it was. -/
def reload (m : Machine) (image : Array Word) : Machine × Except MemoryError Unit :=
  let blank := m.mem.clear
  match blank.load 0 image with
  | .ok mem => ({ m with mem }.reset, .ok ())
  | .error e => ({ m with mem := blank }, .error e)

def describe (m : Machine) : String :=
  s!"Cpu \x7b state: {m.status.name}, pc: {m.pc}, sp: {m.sp}, cycles: {m.cycles}, " ++
    s!"regs: {m.regs.describe}, mem: {m.mem.describe} \x7d"

end Machine

end CellMachine
