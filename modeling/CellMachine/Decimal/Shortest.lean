import CellMachine.Decimal.Basic

/-!
# CellMachine.Decimal.Shortest

The shortest decimal text of a binary64 number: the fewest digits that read back as the number, of
those the nearest, always in positional notation.
-/

namespace CellMachine

namespace Decimal

/-- The two neighbours of `d` with `precision` significant digits, the nearer one first. -/
def neighbours (precision : Nat) (d : Decimal) : List Decimal :=
  let step := tenPow (digitCount d.coefficient - precision)
  let below := d.coefficient / step
  let near := halfEven d.coefficient step
  let far := if near = below then below + 1 else below
  let exponent := d.exponent + (digitCount d.coefficient - precision : Nat)
  [⟨near, exponent⟩, ⟨far, exponent⟩]

/-- The decimal of fewest digits that reads back as `units`. Seventeen digits always do. -/
def shortest (units : Nat) : Decimal :=
  let exact := ofUnits units
  let candidates := (List.range' 1 17).flatMap fun n => exact.neighbours n
  (candidates.find? (·.toUnits = units)).getD exact

end Decimal

namespace Binary64

def shortest : Binary64 → String
  | .nan => "NaN"
  | .inf negative => if negative then "-inf" else "inf"
  | .finite negative units _ _ =>
    let d := Decimal.shortest units
    let magnitude := if units = 0 then ['0'] else positional d.digits d.leading
    String.ofList (if negative then '-' :: magnitude else magnitude)

end Binary64

end CellMachine
