import CellMachine.Decimal.Basic

/-!
# CellMachine.Decimal.General

The general number format: a value rounded to a count of significant digits and written in
positional or in scientific notation, without zeros at the end of a fraction.
-/

namespace CellMachine

/-- One digit before the point, then the exponent with its sign and at least two digits. -/
def scientific (digits : List Char) (leading : Int) : List Char :=
  let mantissa := match digits with
    | first :: second :: rest => first :: '.' :: second :: rest
    | _ => digits
  let sign := if leading < 0 then '-' else '+'
  let exponent := Nat.toDigits 10 leading.natAbs
  mantissa ++ 'e' :: sign :: List.leftpad 2 '0' exponent

namespace Decimal

/-- A decimal of at most `precision` significant digits in the general format. -/
def general (precision : Nat) (d : Decimal) : List Char :=
  if d.leading < -4 ∨ d.leading ≥ precision then scientific d.digits d.leading
  else positional d.digits d.leading

end Decimal

namespace Binary64

/-- The significant digits of printed values. -/
def generalPrecision : Nat := 6

/-- A value with `precision` significant digits, at least one, in the general format. -/
def general (precision : Nat) : Binary64 → String
  | .nan => "nan"
  | .inf negative => if negative then "-inf" else "inf"
  | .finite negative units _ _ =>
    let precision := max precision 1
    let magnitude :=
      if units = 0 then ['0'] else ((Decimal.ofUnits units).round precision).general precision
    String.ofList (if negative then '-' :: magnitude else magnitude)

end Binary64

end CellMachine
