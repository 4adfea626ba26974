import CellMachine.Binary64.Basic

/-!
# CellMachine.Decimal.Basic

Unsigned decimal numbers, exact and rounded.

* `Decimal.ofUnits` — the exact decimal expansion of a binary64 magnitude.
* `Decimal.round`   — the nearest number with a given count of significant digits, ties to even.
* `Decimal.digits`  — the significant digits, without zeros at the end.
* `positional`      — digits written around a decimal point.
-/

namespace CellMachine

/-- The number of decimal digits of `n`; zero has none. -/
def digitCount (n : Nat) : Nat := if n = 0 then 0 else digitCount (n / 10) + 1

def tenPow (n : Nat) : Nat := Nat.pow 10 n

structure Decimal where
  coefficient : Nat
  exponent : Int
  deriving DecidableEq, Repr

namespace Decimal

/-- The exact value of `units * 2 ^ -1074`, which is `units * 5 ^ 1074 * 10 ^ -1074`. -/
def ofUnits (units : Nat) : Decimal := ⟨units * Nat.pow 5 1074, -1074⟩

/-- The numerator of a decimal counted in units; its denominator is `denominator`. -/
def numerator (d : Decimal) : Nat := d.coefficient * tenPow d.exponent.toNat * Binary64.unitsPerOne

def denominator (d : Decimal) : Nat := tenPow (-d.exponent).toNat

/-- The binary64 magnitude nearest to a decimal, in units. -/
def toUnits (d : Decimal) : Nat := Binary64.roundUnits d.numerator d.denominator

/-- The nearest number with at most `precision` significant digits, ties to even. -/
def round (precision : Nat) (d : Decimal) : Decimal :=
  let excess := digitCount d.coefficient - precision
  ⟨halfEven d.coefficient (tenPow excess), d.exponent + excess⟩

/-- The power of ten of the leading digit. -/
def leading (d : Decimal) : Int := d.exponent + digitCount d.coefficient - 1

def dropTrailingZeros (ds : List Char) : List Char := (ds.reverse.dropWhile (· == '0')).reverse

/-- The digits of the coefficient from the leading one to the last that is not zero. -/
def digits (d : Decimal) : List Char := dropTrailingZeros (Nat.toDigits 10 d.coefficient)

end Decimal

def Binary64.ofDecimal (negative : Bool) (d : Decimal) : Binary64 :=
  ofRatio negative d.numerator d.denominator

/-- Digits whose first one has weight `10 ^ leading`, filled up with zeros as far as the decimal
point. -/
def positional (digits : List Char) (leading : Int) : List Char :=
  if leading < 0 then
    '0' :: '.' :: List.replicate (-leading - 1).toNat '0' ++ digits
  else
    let whole := leading.toNat + 1
    if digits.length ≤ whole then digits ++ List.replicate (whole - digits.length) '0'
    else digits.take whole ++ '.' :: digits.drop whole

end CellMachine
