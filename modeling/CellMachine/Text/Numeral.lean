import CellMachine.Word

/-!
# CellMachine.Text.Numeral

Reading integers.

* `decimalValue` — the number that a run of decimal digits denotes.
* `readWord`     — an optional sign and decimal digits, as a word.
* `readHex`      — hexadecimal digits, as a number below `2 ^ 64`.
-/

namespace CellMachine.Text

inductive NumeralError where
  | invalidDigit
  | tooLarge
  | tooSmall
  deriving DecidableEq, Repr

def NumeralError.message : NumeralError → String
  | .invalidDigit => "invalid digit found in string"
  | .tooLarge => "number too large to fit in target type"
  | .tooSmall => "number too small to fit in target type"

def digitValue (c : Char) : Nat := c.toNat - '0'.toNat

/-- The number denoted by decimal digits, most significant first. -/
def decimalValue (digits : List Char) : Nat := digits.foldl (fun n c => 10 * n + digitValue c) 0

/-- A sign, where a text has one, and what follows it. The minus sign reads as `true`. -/
def splitSign : List Char → Bool × List Char
  | '-' :: cs => (true, cs)
  | '+' :: cs => (false, cs)
  | cs => (false, cs)

/-- Reads an optional sign and one or more decimal digits. The digits before the first other
character are weighed first, so a text with both faults is out of range. -/
def readWord (cs : List Char) : Except NumeralError Word :=
  let (negative, body) := splitSign cs
  let digits := body.takeWhile Char.isDigit
  match Word.ofInt? (if negative then -decimalValue digits else decimalValue digits) with
  | none => .error (if negative then .tooSmall else .tooLarge)
  | some w =>
    if digits.isEmpty || digits.length < body.length then .error .invalidDigit else .ok w

def hexValue? (c : Char) : Option Nat :=
  if c.isDigit then some (digitValue c)
  else if 'a' ≤ c ∧ c ≤ 'f' then some (c.toNat - 'a'.toNat + 10)
  else if 'A' ≤ c ∧ c ≤ 'F' then some (c.toNat - 'A'.toNat + 10)
  else none

/-- The number denoted by hexadecimal digits, most significant first. -/
def hexDigits? (cs : List Char) : Option Nat :=
  cs.foldlM (fun n c => (hexValue? c).map (16 * n + ·)) 0

/-- Reads an optional plus sign and one or more hexadecimal digits as a number below `2 ^ 64`. -/
def readHex (cs : List Char) : Option Nat := do
  let digits := match cs with
    | '+' :: rest => rest
    | _ => cs
  if digits.isEmpty then none
  let n ← hexDigits? digits
  if n < UInt64.size then some n else none

end CellMachine.Text
