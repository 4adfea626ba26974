import CellMachine.Memory
import CellMachine.Registers.Basic

/-!
# CellMachine.Machine.Fault

The run state of a machine and the causes for which an instruction fails.
-/

namespace CellMachine

inductive Status where
  | running
  | halted
  | faulted
  deriving DecidableEq, Repr

namespace Status

def all : List Status := [.running, .halted, .faulted]

def name : Status → String
  | .running => "Running"
  | .halted => "Halted"
  | .faulted => "Faulted"

end Status

inductive Fault where
  | notRunning (status : Status)
  | unknownOpcode (opcode pc : Word)
  | memory (error : MemoryError)
  | register (error : RegisterError)
  | stackOverflow (sp : Word)
  | stackUnderflow (sp : Word)
  | divisionByZero (pc : Word)
  | invalidDigit (value : Word)
  | decimal (error : DecimalError)
  | output (reason : String)
  deriving DecidableEq

def Fault.message : Fault → String
  | .notRunning status => s!"CPU not running: {status.name}"
  | .unknownOpcode opcode pc => s!"unknown opcode {opcode} at {pc}"
  | .memory error => s!"memory fault: {error.message}"
  | .register error => error.message
  | .stackOverflow sp => s!"stack overflow (sp = {sp})"
  | .stackUnderflow sp => s!"stack underflow (sp = {sp})"
  | .divisionByZero pc => s!"division by zero at {pc}"
  | .invalidDigit value => s!"string print popped {value}, not a digit"
  | .decimal error => s!"decimal encoding failed: {error.message}"
  | .output reason => s!"output error: {reason}"

end CellMachine
