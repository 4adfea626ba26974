import CellMachine.Opcode

/-!
# CellMachine.Instruction

Instructions, and the cells that hold them.

* `Instruction.encode` — the opcode cell followed by the operand cells.
* `Instruction.decode` — the instruction at the start of a row of cells.

Operands are raw cells: a register number is checked when the instruction is executed.
-/

namespace CellMachine

inductive Instruction where
  | clf
  | cmp (dest src : Word)
  | cmpi (dest imm : Word)
  | mov (dest src : Word)
  | sti (addr src : Word)
  | ldi (dest addr : Word)
  | lii (dest imm : Word)
  | push (reg : Word)
  | pop (reg : Word)
  | unary (op : Unary) (dest : Word)
  | arith (op : Arith) (dest src : Word)
  | jump (condition : Condition) (target : Word)
  | bitwise (op : Bitwise) (dest src : Word)
  | prnt
  | hlt
  deriving DecidableEq, Repr

/-- Why a row of cells does not start with an instruction. -/
inductive DecodeError where
  | empty
  | invalidOpcode (cell : Word)
  | truncated (op : Opcode) (available : Nat)
  deriving DecidableEq, Repr

def DecodeError.message : DecodeError → String
  | .empty => "no cells to decode"
  | .invalidOpcode cell => s!"invalid opcode: {cell}"
  | .truncated op available =>
    s!"{op.mnemonic} needs {op.width} cells but only {available} remain"

namespace Instruction

def opcode : Instruction → Opcode
  | .clf => .clf
  | .cmp .. => .cmp
  | .cmpi .. => .cmpi
  | .mov .. => .mov
  | .sti .. => .sti
  | .ldi .. => .ldi
  | .lii .. => .lii
  | .push _ => .push
  | .pop _ => .pop
  | .unary op _ => .unary op
  | .arith op .. => .arith op
  | .jump c _ => .jump c
  | .bitwise op .. => .bitwise op
  | .prnt => .prnt
  | .hlt => .hlt

def operands : Instruction → List Word
  | .clf | .prnt | .hlt => []
  | .cmp d s | .mov d s | .arith _ d s | .bitwise _ d s => [d, s]
  | .cmpi d i | .lii d i => [d, i]
  | .sti a s => [a, s]
  | .ldi d a => [d, a]
  | .push r | .pop r | .unary _ r => [r]
  | .jump _ t => [t]

/-- The instruction with this operation and these operand cells; a cell too many is ignored. -/
def ofParts (op : Opcode) (a b : Word) : Instruction :=
  match op with
  | .clf => .clf
  | .cmp => .cmp a b
  | .cmpi => .cmpi a b
  | .mov => .mov a b
  | .sti => .sti a b
  | .ldi => .ldi a b
  | .lii => .lii a b
  | .push => .push a
  | .pop => .pop a
  | .unary op => .unary op a
  | .arith op => .arith op a b
  | .jump c => .jump c a
  | .bitwise op => .bitwise op a b
  | .prnt => .prnt
  | .hlt => .hlt

def width (i : Instruction) : Nat := i.opcode.width

@[simp] theorem length_operands (i : Instruction) :
    i.operands.length = i.opcode.fields.length := by cases i <;> rfl

@[simp] theorem opcode_ofParts (op : Opcode) (a b : Word) : (ofParts op a b).opcode = op := by
  cases op <;> rfl

/-- An instruction is its operation and its operand cells. -/
theorem ofParts_operands (i : Instruction) :
    ofParts i.opcode (i.operands.getD 0 0) (i.operands.getD 1 0) = i := by cases i <;> rfl

def encode (i : Instruction) : List Word := i.opcode.cell :: i.operands

@[simp] theorem length_encode (i : Instruction) : i.encode.length = i.width := by
  simp [encode, width, Opcode.width]

/-- The instruction at the start of `cells`; only the cells of its own width need be there. -/
def decode : List Word → Except DecodeError Instruction
  | [] => .error .empty
  | cell :: rest =>
    match Opcode.ofCell? cell with
    | none => .error (.invalidOpcode cell)
    | some op =>
      let operands := rest.take op.fields.length
      if operands.length < op.fields.length then .error (.truncated op (operands.length + 1))
      else .ok (ofParts op (operands.getD 0 0) (operands.getD 1 0))

end Instruction

end CellMachine
