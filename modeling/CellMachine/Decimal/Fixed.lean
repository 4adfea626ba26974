import CellMachine.Decimal.Triple
import CellMachine.Text.Numeral

/-!
# CellMachine.Decimal.Fixed

The fixed-point notation with six decimal places, and the triples that it spells.

* `Binary64.fixed`  — a number in fixed-point notation.
* `Triple.ofText`   — the triple of a fixed-point text, taken apart at the point: the zeros at both
  ends of the fraction are cut off, and those in front are counted.
-/

namespace CellMachine

/-- A number in fixed-point notation, rounded to six places, ties to even. -/
def Binary64.fixed : Binary64 → List Char
  | .nan => "NaN".toList
  | .inf negative => if negative then "-inf".toList else "inf".toList
  | .finite negative units _ _ =>
    let millionths := halfEven (units * tenPow Triple.places) unitsPerOne
    let whole := Nat.toDigits 10 (millionths / tenPow Triple.places)
    let fraction := Nat.toDigits 10 (millionths % tenPow Triple.places)
    let magnitude := whole ++ '.' :: List.leftpad Triple.places '0' fraction
    if negative then '-' :: magnitude else magnitude

namespace Triple

/-- Why a text spells no triple. -/
inductive TextError where
  | outOfRange
  | malformed (text : List Char)
  deriving DecidableEq, Repr

/-- The digits of the fraction of `text` as a word; no digits are zero. -/
def readDigits (text digits : List Char) : Except TextError Word :=
  if digits.isEmpty then .ok 0 else (Text.readWord digits).mapError fun _ => .malformed text

/-- Reads the part before the point as a word, and the digits between the outer zeros of the part
after it as another one. A minus sign goes to the digits where the first word is zero. -/
def ofText (text : List Char) : Except TextError Triple := do
  let whole := text.takeWhile (· != '.')
  let _ :: fraction := text.dropWhile (· != '.') | .error (.malformed text)
  let ipart ← (Text.readWord whole).mapError fun _ => .outOfRange
  let run := Decimal.dropTrailingZeros fraction
  let digits := run.dropWhile (· == '0')
  let frac ← readDigits text digits
  return ⟨ipart, if ipart == 0 && whole.head? == some '-' then -frac else frac,
    Int64.ofNat (run.length - digits.length)⟩

end Triple

end CellMachine
