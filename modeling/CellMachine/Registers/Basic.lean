import CellMachine.Decimal.Triple
import CellMachine.Registers.Name

/-!
# CellMachine.Registers.Basic

The register file: sixteen words and three condition flags.

* `Flags`     — the outcome of the last comparison.
* `TypeTag`   — how the first register of a group says to read the others.
* `Registers` — checked access to single registers and to decimal triples.
-/

namespace CellMachine

/-- The outcome of a comparison; all clear before the first one and after `CLF`. -/
structure Flags where
  zero : Bool := false
  ltz : Bool := false
  gtz : Bool := false
  deriving DecidableEq, Repr

namespace Flags

def ofOrdering (o : Ordering) : Flags := ⟨o == .eq, o == .lt, o == .gt⟩

/-- The order of two words as signed integers. -/
def ofWords (a b : Word) : Flags := ofOrdering (compare a.toInt b.toInt)

/-- The order of two numbers; unordered ones clear every flag. -/
def ofNumbers (x y : Binary64) : Flags := (x.compare y).elim {} ofOrdering

theorem ofNumbers_cases (x y : Binary64) : ofNumbers x y = {} ∨ ∃ o, ofNumbers x y = ofOrdering o := by
  unfold ofNumbers
  cases x.compare y with
  | none => exact .inl rfl
  | some o => exact .inr ⟨o, rfl⟩

end Flags

/-- The kind of value that an operand group holds. -/
inductive TypeTag where
  | bool | int
  | float
  /-- Digits on the stack; the next register holds their count. -/
  | string
  deriving DecidableEq, Repr

namespace TypeTag

/-- The tags, at the positions of their numbers. -/
def all : List TypeTag := [.bool, .int, .float, .string]

def ofWord? (w : Word) : Option TypeTag := (w.place? all.length).map (all[·])

def name : TypeTag → String
  | .bool => "Bool"
  | .int => "Int"
  | .float => "Float"
  | .string => "String"

end TypeTag

structure Registers where
  r : Vector Word 16 := Vector.replicate 16 0
  flags : Flags := {}
  deriving DecidableEq, Repr

/-- No register has this number. -/
structure RegisterError where
  index : Word
  deriving DecidableEq, Repr

def RegisterError.message (e : RegisterError) : String :=
  s!"register index {e.index} out of range (0-15)"

namespace Registers

def slot (index : Word) : Except RegisterError (Fin 16) :=
  match index.place? 16 with
  | some i => .ok i
  | none => .error ⟨index⟩

/-- The position of the first of three registers that start at register `base`. -/
def decimalSlot (base : Word) : Except RegisterError (Fin 14) :=
  match base.place? 16 with
  | none => .error ⟨base⟩
  | some i => if h : i.val < 14 then .ok ⟨i.val, h⟩ else .error ⟨base + 2⟩

/-- The first register of the destination group, which holds its type tag. -/
def r0a : Fin 16 := 0

/-- The first register of the value of the destination group. -/
def r1a : Fin 16 := 1

/-- The first register of the source group, which holds its type tag. -/
def r0b : Fin 16 := 8

def word (regs : Registers) (i : Fin 16) : Word := regs.r[i]

def get (regs : Registers) (index : Word) : Except RegisterError Word := (slot index).map regs.word

def put (regs : Registers) (i : Fin 16) (w : Word) : Registers := { regs with r := regs.r.set i w }

def set (regs : Registers) (index w : Word) : Except RegisterError Registers :=
  (slot index).map (regs.put · w)

def tagA (regs : Registers) : Option TypeTag := TypeTag.ofWord? (regs.word r0a)

def tagB (regs : Registers) : Option TypeTag := TypeTag.ofWord? (regs.word r0b)

def triple (regs : Registers) (i : Fin 14) : Triple :=
  ⟨regs.r[i.val], regs.r[i.val + 1], regs.r[i.val + 2]⟩

/-- The register file with the three words at register `i` and after it replaced. -/
def putTriple (regs : Registers) (i : Fin 14) (t : Triple) : Registers :=
  { regs with
    r := ((regs.r.set i.val t.ipart).set (i.val + 1) t.frac).set (i.val + 2) t.lz }

def readDecimal (regs : Registers) (base : Word) : Except RegisterError Binary64 :=
  (decimalSlot base).map fun i => (regs.triple i).toBinary64

def writeDecimal (regs : Registers) (base : Word) (t : Triple) : Except RegisterError Registers :=
  (decimalSlot base).map (regs.putTriple · t)

/-- Every register with its name, each followed by a space. -/
def line (regs : Registers) : String :=
  String.join ((names.zip regs.r.toList).map fun (name, w) => s!"[{name}: {w}] ")

def describe (regs : Registers) : String :=
  let words := ", ".intercalate (regs.r.toList.map toString)
  let f := regs.flags
  s!"Registers \x7b r: [{words}], flags: Flags \x7b zero: {f.zero}, ltz: {f.ltz}, " ++
    s!"gtz: {f.gtz} \x7d \x7d"

end Registers

end CellMachine
