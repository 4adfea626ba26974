import CellMachine.Word

/-!
# CellMachine.Opcode

The thirty-two operations and the shapes of their instructions.

* `Opcode.all`    — the operations in numeric order; an opcode cell holds a position in it.
* `Opcode.fields` — the operand cells that follow the opcode cell, with their meaning.
* `Opcode.form`   — the coarse shape, which fixes the width.
-/

namespace CellMachine

/-- Operations that replace a register by a function of itself. -/
inductive Unary where
  | inc | dec | bnot | lnot
  deriving DecidableEq, Repr

/-- Arithmetic on integers or decimals, as the type tag says. -/
inductive Arith where
  | add | sub | mul | div | mod
  deriving DecidableEq, Repr

/-- Operations on the bits or on the truth value of two registers. -/
inductive Bitwise where
  | shl | shr | band | bor | bxor | land | lor
  deriving DecidableEq, Repr

inductive Condition where
  | less | greater | equal | unequal | always
  deriving DecidableEq, Repr

inductive Opcode where
  | clf | cmp | cmpi | mov | sti | ldi | lii | push | pop
  | unary (op : Unary)
  | arith (op : Arith)
  | jump (condition : Condition)
  | bitwise (op : Bitwise)
  | prnt | hlt
  deriving DecidableEq, Repr

/-- How an operand cell is read. -/
inductive OperandKind where
  | register
  | immediate
  /-- The address before the one where a jump continues. -/
  | target
  deriving DecidableEq, Repr

structure Field where
  name : String
  kind : OperandKind
  deriving DecidableEq, Repr

/-- The coarse shape of an instruction. -/
inductive Form where
  | bare | register | stack | jump | binary
  deriving DecidableEq, Repr

def Form.width : Form → Nat
  | .bare => 1
  | .register | .stack | .jump => 2
  | .binary => 3

namespace Opcode

/-- Every operation, in the order of the opcode numbers. -/
def all : List Opcode :=
  [.clf, .cmp, .cmpi, .mov, .sti, .ldi, .lii, .push, .pop, .unary .inc, .unary .dec,
   .arith .add, .arith .sub, .arith .mul, .arith .div, .arith .mod,
   .jump .less, .jump .greater, .jump .equal, .jump .unequal, .jump .always,
   .bitwise .shl, .bitwise .shr, .bitwise .band, .bitwise .bor, .unary .bnot, .bitwise .bxor,
   .bitwise .land, .bitwise .lor, .unary .lnot, .prnt, .hlt]

def code (op : Opcode) : Nat := all.idxOf op

def ofCell? (cell : Word) : Option Opcode := (cell.place? all.length).map (all[·])

def cell (op : Opcode) : Word := Int64.ofNat op.code

theorem mem_all (op : Opcode) : op ∈ all := by
  cases op with
  | unary o => cases o <;> decide
  | arith o => cases o <;> decide
  | jump o => cases o <;> decide
  | bitwise o => cases o <;> decide
  | _ => decide

theorem ofCell?_cell (op : Opcode) : ofCell? op.cell = some op := by
  have h : ∀ op ∈ all, ofCell? op.cell = some op := by decide
  exact h op (mem_all op)

def mnemonic : Opcode → String
  | .clf => "CLF" | .cmp => "CMP" | .cmpi => "CMPI" | .mov => "MOV"
  | .sti => "STI" | .ldi => "LDI" | .lii => "LII" | .push => "PUSH" | .pop => "POP"
  | .unary .inc => "INC" | .unary .dec => "DEC" | .unary .bnot => "BNOT" | .unary .lnot => "LNOT"
  | .arith .add => "ADD" | .arith .sub => "SUB" | .arith .mul => "MUL" | .arith .div => "DIV"
  | .arith .mod => "MOD"
  | .jump .less => "JLZ" | .jump .greater => "JGZ" | .jump .equal => "JEZ"
  | .jump .unequal => "JNZ" | .jump .always => "JMP"
  | .bitwise .shl => "SHL" | .bitwise .shr => "SHR" | .bitwise .band => "BAND"
  | .bitwise .bor => "BOR" | .bitwise .bxor => "BXOR" | .bitwise .land => "LAND"
  | .bitwise .lor => "LOR"
  | .prnt => "PRNT" | .hlt => "HLT"

/-- The operation with this mnemonic, in ASCII letters of either case. -/
def ofMnemonic? (text : List Char) : Option Opcode :=
  all.find? fun op => op.mnemonic.toList == text.map Char.toUpper

/-- The name of an operation in records: its mnemonic with one capital. -/
def name (op : Opcode) : String :=
  match op.mnemonic.toList with
  | [] => ""
  | c :: cs => String.ofList (c :: cs.map Char.toLower)

def fields : Opcode → List Field
  | .clf | .prnt | .hlt => []
  | .cmpi | .lii => [⟨"dest", .register⟩, ⟨"imm", .immediate⟩]
  | .sti => [⟨"addr", .immediate⟩, ⟨"src", .register⟩]
  | .ldi => [⟨"dest", .register⟩, ⟨"addr", .immediate⟩]
  | .push | .pop => [⟨"reg", .register⟩]
  | .unary _ => [⟨"dest", .register⟩]
  | .jump _ => [⟨"target", .target⟩]
  | .cmp | .mov | .arith _ | .bitwise _ => [⟨"dest", .register⟩, ⟨"src", .register⟩]

def form : Opcode → Form
  | .clf | .prnt | .hlt => .bare
  | .unary _ => .register
  | .push | .pop => .stack
  | .jump _ => .jump
  | .cmp | .cmpi | .mov | .sti | .ldi | .lii | .arith _ | .bitwise _ => .binary

/-- The number of cells that an instruction takes: its opcode cell and its operand cells. -/
def width (op : Opcode) : Nat := op.fields.length + 1

theorem width_eq_form_width (op : Opcode) : op.width = op.form.width := by cases op <;> rfl

theorem width_pos (op : Opcode) : 0 < op.width := Nat.succ_pos _

theorem width_le_three (op : Opcode) : op.width ≤ 3 := by cases op <;> simp [width, fields]

end Opcode

end CellMachine
