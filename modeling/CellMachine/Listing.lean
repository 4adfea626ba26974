import CellMachine.Instruction
import CellMachine.Registers.Name
import CellMachine.Text.Pad

/-!
# CellMachine.Listing

Cells as assembly text.

* `Instruction.text` — an instruction in assembly syntax.
* `Listing.first`    — the text of the first cells of a row, and how many they are.
* `listing`          — a row of cells from its start to its end, line by line.

Cells that start no instruction are listed one by one, as data. The text of a line assembles to the
cells of the line.
-/

namespace CellMachine

/-- A register that exists has a name; every other operand is a number. -/
def OperandKind.text (kind : OperandKind) (w : Word) : String :=
  match kind with
  | .register => (Registers.name? w).getD (toString w)
  | .immediate | .target => toString w

def Instruction.text (i : Instruction) : String :=
  let operands := List.zipWith (fun f w => f.kind.text w) i.opcode.fields i.operands
  if operands.isEmpty then i.opcode.mnemonic
  else i.opcode.mnemonic ++ " " ++ ", ".intercalate operands

namespace Listing

def first (cells : List Word) : String × Nat :=
  match Instruction.decode cells with
  | .ok i => (i.text, i.width)
  | .error _ => (s!"DAT {cells.headD 0}", 1)

theorem first_width_pos (cells : List Word) : 0 < (first cells).2 := by
  unfold first
  split
  · exact Opcode.width_pos _
  · exact Nat.one_pos

structure Line where
  addr : Nat
  cells : List Word
  text : String
  deriving DecidableEq, Repr

def Line.width (line : Line) : Nat := line.cells.length

/-- The lines of `cells`, the first of which is at `addr`. -/
def linesFrom (addr : Nat) (cells : List Word) : List Line :=
  match cells with
  | [] => []
  | c :: rest =>
    let (text, width) := first (c :: rest)
    ⟨addr, (c :: rest).take width, text⟩ :: linesFrom (addr + width) (rest.drop (width - 1))
termination_by cells.length
decreasing_by
  simp only [List.length_drop, List.length_cons]
  omega

end Listing

def listing (cells : List Word) : List Listing.Line := Listing.linesFrom 0 cells

namespace Listing

def Line.render (line : Line) : String :=
  let cells := " ".intercalate (line.cells.map toString)
  Text.zeroPad 4 line.addr ++ ": " ++ Text.padEnd 20 line.text ++ " ; " ++ cells ++ "\n"

def render (cells : List Word) : String :=
  "; Disassembly\n; -----------\n\n" ++ String.join ((listing cells).map Line.render)

end Listing

end CellMachine
