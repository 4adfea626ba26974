import CellMachine.Binary64.Arith
import CellMachine.Decimal.General
import CellMachine.Machine.Effect

/-!
# CellMachine.Machine.Execute

What the instructions do.

* `Unary.apply`, `Bitwise.apply`, `Arith.onWords`, `Arith.onNumbers` — the operations.
* `Exec.act`     — an instruction without its effect on the program counter.
* `Exec.execute` — an instruction whose opcode cell the program counter is on.

Operands are checked in the order in which they are read, and nothing is written before the last
check of an instruction has passed. Printing digits is the exception: it pops and prints one digit
after the other.
-/

namespace CellMachine

/-! ## Operations on words and numbers -/

def Unary.apply (op : Unary) (w : Word) : Word :=
  match op with
  | .inc => w + 1
  | .dec => w - 1
  | .bnot => ~~~w
  | .lnot => Word.ofBool (w == 0)

/-- A right shift keeps the sign. -/
def Bitwise.apply (op : Bitwise) (a b : Word) : Word :=
  match op with
  | .shl => a <<< Int64.ofNat b.shiftCount
  | .shr => a >>> Int64.ofNat b.shiftCount
  | .band => a &&& b
  | .bor => a ||| b
  | .bxor => a ^^^ b
  | .land => Word.ofBool (a != 0 && b != 0)
  | .lor => Word.ofBool (a != 0 || b != 0)

namespace Arith

def divides : Arith → Bool
  | .div | .mod => true
  | _ => false

/-- Wrapping arithmetic; division truncates, and the remainder has the sign of the dividend. -/
def onWords (op : Arith) (a b : Word) : Word :=
  match op with
  | .add => a + b
  | .sub => a - b
  | .mul => a * b
  | .div => a / b
  | .mod => a % b

def onNumbers (op : Arith) (x y : Binary64) : Binary64 :=
  match op with
  | .add => x.add y
  | .sub => x.sub y
  | .mul => x.mul y
  | .div => x.div y
  | .mod => x.rem y

end Arith

namespace Machine

/-! ## Operands -/

def slot (index : Word) : Except Fault (Fin 16) := (Registers.slot index).mapError .register

def register (m : Machine) (index : Word) : Except Fault Word :=
  (m.regs.get index).mapError .register

def position (m : Machine) (addr : Word) : Except Fault (Fin m.mem.size) :=
  (m.mem.index addr).mapError .memory

def load (m : Machine) (addr : Word) : Except Fault Word := (m.mem.read addr).mapError .memory

/-- The decimal operands of the instruction fetched last. The second one is a triple if the source
group is tagged so, and a whole number otherwise. -/
def numbers (m : Machine) : Except Fault (Binary64 × Binary64) := do
  let x ← (m.regs.readDecimal m.dest).mapError .register
  let y ←
    if m.regs.tagB = some .float then (m.regs.readDecimal m.src).mapError .register
    else (m.register m.src).map fun w => Binary64.ofInt w.toInt
  return (x, y)

/-- The change that stores a number as the destination triple of the instruction fetched last. -/
def storeNumber (m : Machine) (x : Binary64) : Except Fault Effect := do
  let t ← (Triple.ofBinary64 x).mapError .decimal
  let i ← (Registers.decimalSlot m.dest).mapError .register
  return .decimal i t

def jumps (m : Machine) : Condition → Bool
  | .less => m.regs.flags.ltz
  | .greater => m.regs.flags.gtz
  | .equal => m.regs.flags.zero
  | .unequal => !m.regs.flags.zero
  | .always => true

/-- The program counter after an instruction whose opcode cell it is on: the last cell of the
instruction, or the target of a jump that is taken. -/
def pcAfter (m : Machine) (i : Instruction) : Word :=
  let last := m.pc + Int64.ofNat (i.width - 1)
  match i with
  | .jump c target => if m.jumps c then target else last
  | _ => last

end Machine

namespace Exec

/-! ## Registers, memory and the stack -/

def register (index : Word) : Exec Word := read (·.register index)

def setRegister (index w : Word) : Exec Unit := do
  let i ← read fun _ => Machine.slot index
  perform (.register i w)

def load (addr : Word) : Exec Word := read (·.load addr)

def store (addr w : Word) : Exec Unit := do
  let i ← read fun m => (m.position addr).map Fin.val
  perform (.store i w)

def storeNumber (x : Binary64) : Exec Unit := do
  let e ← read (·.storeNumber x)
  perform e

def push (w : Word) : Exec Unit := do
  let m ← machine
  if m.sp ≤ 0 then fail (.stackOverflow m.sp)
  else
    store (m.sp - 1) w
    perform (.stack (m.sp - 1))

def pop : Exec Word := do
  let m ← machine
  if m.sp < 0 ∨ m.mem.size ≤ m.sp.toInt.toNat then fail (.stackUnderflow m.sp)
  else
    let w ← load m.sp
    perform (.stack (m.sp + 1))
    return w

/-! ## Instructions -/

def compare (dest src : Word) : Exec Unit := do
  let m ← machine
  if m.regs.tagA = some .float then
    let (x, y) ← read (·.numbers)
    perform (.flags (.ofNumbers x y))
  else
    let a ← register dest
    let b ← register src
    perform (.flags (.ofWords a b))

/-- The destination tag alone decides between decimals and integers. -/
def arithmetic (op : Arith) (dest src : Word) : Exec Unit := do
  let m ← machine
  if m.regs.tagA = some .float then
    let (x, y) ← read (·.numbers)
    if op.divides && y.isZero then fail (.divisionByZero m.pc)
    else storeNumber (op.onNumbers x y)
  else
    let b ← register src
    if op.divides && b == 0 then fail (.divisionByZero m.pc)
    else
      let a ← register dest
      setRegister dest (op.onWords a b)

def isDigit (w : Word) : Bool := 0 ≤ w && w ≤ 9

def digitText (w : Word) : String := String.singleton (Nat.digitChar w.toInt.toNat)

/-- Pops and prints so many digits and ends the line. Each cell is left in `R1A` before it is
checked. -/
def printDigits : Nat → Exec Unit
  | 0 => print "\n"
  | count + 1 => do
    let w ← pop
    perform (.register Registers.r1a w)
    if isDigit w then
      print (digitText w)
      printDigits count
    else fail (.invalidDigit w)

/-- Prints the value of the destination group; an unknown tag prints nothing. -/
def printValue : Exec Unit := do
  let m ← machine
  let w := m.regs.word Registers.r1a
  match m.regs.tagA with
  | some .bool => print (if w != 0 then "true\n" else "false\n")
  | some .int => print (toString w ++ "\n")
  | some .float =>
    print ((m.regs.triple 1).toBinary64.general Binary64.generalPrecision ++ "\n")
  | some .string => printDigits w.toInt.toNat
  | none => return

/-- What an instruction does, the program counter apart. -/
def act : Instruction → Exec Unit
  | .clf => perform (.flags {})
  | .cmp dest src => compare dest src
  | .cmpi dest imm => do
    let a ← register dest
    perform (.flags (.ofWords a imm))
  | .mov dest src => do
    let w ← register src
    setRegister dest w
  | .sti addr src => do
    let w ← register src
    store addr w
  | .ldi dest addr => do
    let w ← load addr
    setRegister dest w
  | .lii dest imm => setRegister dest imm
  | .push reg => do
    let w ← register reg
    push w
  -- The register is checked before the stack moves.
  | .pop reg => do
    let _ ← register reg
    let w ← pop
    setRegister reg w
  | .unary op dest => do
    let w ← register dest
    setRegister dest (op.apply w)
  | .arith op dest src => arithmetic op dest src
  | .jump _ _ => return
  | .bitwise op dest src => do
    let b ← register src
    let a ← register dest
    setRegister dest (op.apply a b)
  | .prnt => printValue
  | .hlt => perform .halt

/-- Carries out an instruction whose opcode cell the program counter is on. -/
def execute (i : Instruction) : Exec Unit := do
  act i
  let m ← machine
  perform (.jump (m.pcAfter i))

end Exec

end CellMachine
