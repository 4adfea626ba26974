import CellMachine.Assembly.Statement
import CellMachine.Instruction
import CellMachine.Text.Lines

/-!
# CellMachine.Assembly.Assembler

The first pass over a source: cells are made line by line, and a cell that is to hold the address of
a label is left zero and noted.

* `Assembler.define`  — a label at the address reached so far.
* `Assembler.emit`    — the cells of a statement.
* `Assembler.addLine` — one line: its label, then its statement.
-/

namespace CellMachine.Assembly

/-- A cell that waits for the address of a label. -/
structure Patch where
  position : Nat
  label : String
  /-- What is added to the address of the label. -/
  offset : Word
  line : Nat
  deriving DecidableEq, Repr

structure Assembler where
  symbols : List (String × Nat) := []
  /-- The cells that wait, the last one first. -/
  patches : List Patch := []
  cells : Array Word := #[]
  deriving DecidableEq, Repr

namespace Assembler

def addr (a : Assembler) : Nat := a.cells.size

def address? (a : Assembler) (label : String) : Option Nat := a.symbols.lookup label

def define (a : Assembler) (label : String) : Except Cause Assembler :=
  match a.address? label with
  | some _ => .error (.duplicateLabel label)
  | none => .ok { a with symbols := (label, a.addr) :: a.symbols }

/-- Zero cells up to an address: `ORG` moves forward only, and not beyond `maxOrigin`. -/
def moveTo (a : Assembler) (origin : Word) : Except Cause Assembler :=
  if origin.toInt < a.addr then .error (.originBehind origin a.addr)
  else if origin.toInt > maxOrigin then .error (.originTooLarge origin)
  else .ok { a with cells := a.cells ++ Array.replicate (origin.toInt.toNat - a.addr) 0 }

/-- The word of an operand that goes to the cell at `position`; a label is noted, and its word is
zero for now. -/
def operand (a : Assembler) (line position : Nat) : Operand → Word × Assembler
  | .value w => (w, a)
  | .label name => (0, { a with patches := ⟨position, name, 0, line⟩ :: a.patches })
  | .beforeLabel name => (0, { a with patches := ⟨position, name, -1, line⟩ :: a.patches })

/-- The words of operands that go to the cells from `position` on. -/
def operands (a : Assembler) (line position : Nat) : List Operand → List Word × Assembler
  | [] => ([], a)
  | o :: rest =>
    let (w, a) := a.operand line position o
    let (ws, a) := a.operands line (position + 1) rest
    (w :: ws, a)

def emit (a : Assembler) (line : Nat) : Statement → Except Cause Assembler
  | .origin origin => a.moveTo origin
  | .data o =>
    let (w, a) := a.operand line a.addr o
    .ok { a with cells := a.cells.push w }
  | .instruction op os =>
    let (ws, a) := a.operands line (a.addr + 1) os
    let i := Instruction.ofParts op (ws.getD 0 0) (ws.getD 1 0)
    .ok { a with cells := a.cells.appendList i.encode }

/-- A line of a source: blanks around it and its comment do not count. -/
def addText (a : Assembler) (line : Nat) (text : List Char) : Except Cause Assembler := do
  let (label, rest) := splitLabel (Text.trim (Text.uncomment text))
  let a ← match label with
    | none => pure a
    | some name => a.define (← readLabel name)
  match ← readStatement rest with
  | none => return a
  | some s => a.emit line s

/-- `addText` with the number of the line in its error. -/
def addLine (a : Assembler) (line : Nat) (text : List Char) : Except Error Assembler :=
  (a.addText line text).mapError fun cause => ⟨line, cause⟩

/-- Lines that are counted from `line`. -/
def addLines (a : Assembler) (line : Nat) : List (List Char) → Except Error Assembler
  | [] => .ok a
  | text :: rest => do (← a.addLine line text).addLines (line + 1) rest

end Assembler

end CellMachine.Assembly
