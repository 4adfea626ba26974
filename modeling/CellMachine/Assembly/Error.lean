import CellMachine.Word

/-!
# CellMachine.Assembly.Error

Why a source text does not assemble, and on which line.
-/

namespace CellMachine.Assembly

/-- The largest address that `ORG` moves to. -/
def maxOrigin : Nat := 0x1000000

inductive Cause where
  | invalidLabel (name : String)
  | invalidOperand (text : String)
  | invalidOrigin (text : String)
  | unknownMnemonic (mnemonic : String)
  | undefinedLabel (label : String)
  | duplicateLabel (label : String)
  | operandCount (mnemonic : String) (expected found : Nat)
  | originBehind (origin : Word) (current : Nat)
  | originTooLarge (origin : Word)
  deriving DecidableEq, Repr

/-- A cause and the number of its line, counted from 1. -/
structure Error where
  line : Nat
  cause : Cause
  deriving DecidableEq, Repr

def Error.message (e : Error) : String :=
  let line := e.line
  match e.cause with
  | .invalidLabel name => s!"syntax error on line {line}: invalid label name '{name}'"
  | .invalidOperand text => s!"syntax error on line {line}: invalid operand '{text}'"
  | .invalidOrigin text =>
    s!"syntax error on line {line}: ORG requires a numeric address, got '{text}'"
  | .unknownMnemonic mnemonic => s!"unknown mnemonic on line {line}: {mnemonic}"
  | .undefinedLabel label => s!"undefined label on line {line}: {label}"
  | .duplicateLabel label => s!"duplicate label on line {line}: {label}"
  | .operandCount mnemonic expected found =>
    s!"{mnemonic} on line {line} takes {expected} operand(s), found {found}"
  | .originBehind origin current =>
    s!"ORG {origin} on line {line} is behind the current address {current}"
  | .originTooLarge origin =>
    s!"ORG {origin} on line {line} is beyond the largest image ({maxOrigin})"

end CellMachine.Assembly
