import CellMachine.Decimal.Fixed
import CellMachine.Decimal.General

/-!
# CellMachine.Decimal.Styles

The general format made from two other styles: the exponent of the text in exponential style decides
whether this text is used or that in fixed-point style.

* `exponentialText?`      — one digit before the point, and an exponent.
* `fixedText?`            — a count of decimal places.
* `Binary64.generalText?` — the one or the other, without zeros at the end of a fraction.

Each style is asked for a precision, and precisions are limited.
-/

namespace CellMachine

/-- The largest precision that can be asked for. -/
def maxPrecision : Nat := 0xFFFF

def minus (negative : Bool) : List Char := if negative then ['-'] else []

/-- Digits with a point after the first one, if there are others. -/
def pointed : List Char → List Char
  | first :: second :: rest => first :: '.' :: second :: rest
  | digits => digits

/-- The last `places` digits of a number, zeros in front of them where it has fewer. -/
def padded (places n : Nat) : List Char :=
  if places = 0 then [] else List.leftpad places '0' (Nat.toDigits 10 n)

/-- `n` counts units of the last of `places` decimal places. -/
def withPlaces (places n : Nat) : List Char :=
  Nat.toDigits 10 (n / tenPow places) ++
    if places = 0 then [] else '.' :: padded places (n % tenPow places)

/-- A magnitude, not zero, with a digit before the point and `places` after it. The digit before the
point counts as well for the limit. -/
def exponentialText? (places : Nat) (negative : Bool) (units : Nat) : Option (List Char) :=
  if places < maxPrecision then
    let d := (Decimal.ofUnits units).round (places + 1)
    some (minus negative ++ pointed (List.rightpad (places + 1) '0' d.digits) ++
      'e' :: (toString d.leading).toList)
  else none

/-- A magnitude with `places` decimal places. -/
def fixedText? (places : Nat) (negative : Bool) (units : Nat) : Option (List Char) :=
  if places ≤ maxPrecision then
    some (minus negative ++
      withPlaces places (halfEven (units * tenPow places) Binary64.unitsPerOne))
  else none

/-- A fraction without zeros at its end, and without its point if no digits are left. -/
def stripZeros (text : List Char) : List Char :=
  if '.' ∈ text then ((Decimal.dropTrailingZeros text).reverse.dropWhile (· == '.')).reverse
  else text

/-- An exponent with its sign and at least two digits. -/
def exponentMark (exponent : Int) : List Char :=
  'e' :: (if exponent < 0 then '-' else '+') ::
    List.leftpad 2 '0' (Nat.toDigits 10 exponent.natAbs)

namespace Binary64

/-- A value with `precision` significant digits, at least one, in the general format. In fixed-point
style it is rounded again, to the places that the exponent leaves. -/
def generalText? (precision : Nat) : Binary64 → Option (List Char)
  | .nan => some "nan".toList
  | .inf negative => some (minus negative ++ "inf".toList)
  | .finite negative units _ _ =>
    if units = 0 then some (minus negative ++ ['0'])
    else do
      let precision := max precision 1
      let text ← exponentialText? (precision - 1) negative units
      let _ :: rest := text.dropWhile (· != 'e') | return text
      let exponent := ((Text.readWord rest).toOption.getD 0).toInt
      if exponent < -4 ∨ exponent ≥ precision then
        return stripZeros (text.takeWhile (· != 'e')) ++ exponentMark exponent
      else
        return stripZeros (← fixedText? (precision - 1 - exponent).toNat negative units)

end Binary64

end CellMachine
