import CellMachine.Assembly.Assembler

/-!
# CellMachine.Assembly.Image

From a source text to the cells of an image.

* `Assembler.patch`   — the second pass: the address of a label in a cell that waits for it.
* `assemble`          — the cells of a source.

Labels are looked up after the whole source was read, so a label may be used before its definition,
and an undefined one is reported only if nothing else is wrong.
-/

namespace CellMachine

namespace Assembly.Assembler

def patch (a : Assembler) (cells : Array Word) (p : Patch) : Except Error (Array Word) :=
  match a.address? p.label with
  | some addr => .ok (cells.setIfInBounds p.position (Int64.ofNat addr + p.offset))
  | none => .error ⟨p.line, .undefinedLabel p.label⟩

/-- The cells with every patch made, in the order of the source. -/
def resolve (a : Assembler) : Except Error (Array Word) := a.patches.reverse.foldlM a.patch a.cells

end Assembly.Assembler

def assemble (source : String) : Except Assembly.Error (Array Word) := do
  let a ← Assembly.Assembler.addLines {} 1 (Text.lines source.toList)
  a.resolve

end CellMachine
