import CellMachine.Word

/-!
# CellMachine.Registers.Name

The sixteen register names: `R0A` to `R7A` on the destination side, `R0B` to `R7B` on the source
side.
-/

namespace CellMachine.Registers

/-- The names, at the positions of their registers. -/
def names : List String :=
  ["R0A", "R1A", "R2A", "R3A", "R4A", "R5A", "R6A", "R7A",
   "R0B", "R1B", "R2B", "R3B", "R4B", "R5B", "R6B", "R7B"]

def name? (index : Word) : Option String := (index.place? names.length).map (names[·])

/-- The register with this name, in ASCII letters of either case. -/
def ofName? (text : List Char) : Option Nat :=
  names.findIdx? fun name => name.toList == text.map Char.toUpper

end CellMachine.Registers
