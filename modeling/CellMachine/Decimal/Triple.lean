import CellMachine.Binary64.Arith
import CellMachine.Decimal.Shortest
import CellMachine.Word

/-!
# CellMachine.Decimal.Triple

Decimal values spread over three registers.

A triple holds a signed integer part, the digits of the fraction without the zeros at its two
ends, and the number of zeros taken from its front: `1.005` is `(1, 5, 2)`. The digits carry the
sign only where the integer part is zero.

* `Triple.toBinary64`  — the number that any three words denote.
* `Triple.ofBinary64`  — the triple of a number, with six decimal places.
-/

namespace CellMachine

structure Triple where
  ipart : Word
  frac : Word
  lz : Word
  deriving DecidableEq, Repr

inductive DecimalError where
  | notFinite (value : Binary64)
  | outOfRange (value : Binary64)
  deriving DecidableEq

def DecimalError.message : DecimalError → String
  | .notFinite value => s!"cannot encode non-finite value {value.shortest}"
  | .outOfRange value => s!"integer part of {value.shortest} does not fit in a register"

namespace Triple

def places : Nat := 6

def maxPlaces : Nat := 0x7FFFFFFF

/-- The decimal places of the fraction: its digits and the zeros before them. A negative count of
zeros counts none. -/
def fractionPlaces (t : Triple) : Nat :=
  min (digitCount t.frac.toInt.natAbs + min t.lz.toInt.toNat maxPlaces) maxPlaces

def isNegative (t : Triple) : Bool := t.ipart < 0 || (t.ipart == 0 && t.frac < 0)

/-- The number denoted by three words: `ipart + frac / 10 ^ places`, each step rounded. -/
def toBinary64 (t : Triple) : Binary64 :=
  let whole := Binary64.ofNat t.ipart.toInt.natAbs
  let digits := Binary64.ofNat t.frac.toInt.natAbs
  let magnitude := whole.add (digits.div ((Binary64.ofNat 10).pow t.fractionPlaces))
  if t.isNegative then magnitude.neg else magnitude

def dropZeros (n : Nat) : Nat :=
  if h : n = 0 ∨ n % 10 ≠ 0 then n
  else dropZeros (n / 10)
termination_by n
decreasing_by exact Nat.div_lt_self (by omega) (by decide)

/-- The triple of `millionths / 10 ^ 6` with the given sign; the integer part must fit. -/
def ofMillionths? (negative : Bool) (millionths : Nat) : Option Triple := do
  let whole := millionths / tenPow places
  let fraction := millionths % tenPow places
  let ipart ← Word.ofInt? (Binary64.signed negative whole)
  let digits := Int64.ofNat (dropZeros fraction)
  let zeros := if fraction = 0 then 0 else places - digitCount fraction
  return ⟨ipart, if whole = 0 ∧ negative then -digits else digits, Int64.ofNat zeros⟩

/-- The triple of a number rounded to six decimal places, ties to even. -/
def ofBinary64 (value : Binary64) : Except DecimalError Triple :=
  match value with
  | .finite negative units _ _ =>
    match ofMillionths? negative (halfEven (units * tenPow places) Binary64.unitsPerOne) with
    | some t => .ok t
    | none => .error (.outOfRange value)
  | _ => .error (.notFinite value)

end Triple

end CellMachine
