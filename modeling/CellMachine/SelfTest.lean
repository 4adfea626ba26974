import CellMachine.Assembly.Image
import CellMachine.Machine.Run

/-!
# CellMachine.SelfTest

Checks of decimals and of small programs, with a report of the outcomes.
-/

namespace CellMachine.SelfTest

structure Check where
  name : String
  passed : Bool

def number (negative : Bool) (coefficient : Nat) (exponent : Int) : Binary64 :=
  .ofDecimal negative ⟨coefficient, exponent⟩

/-- Whether two numbers differ by less than `bound`. -/
def near (x y bound : Binary64) : Bool :=
  let difference := x.sub y
  difference.compare bound == some .lt && difference.neg.compare bound == some .lt

/-- Whether the triple of a number reads back within a millionth. -/
def survives (x : Binary64) : Bool :=
  match Triple.ofBinary64 x with
  | .ok t => near t.toBinary64 x (number false 1 (-6))
  | .error _ => false

/-- Registers and output of a program after at most ten thousand steps over 256 cells. -/
def runSource (source : String) : Option (Registers × String) :=
  match assemble source with
  | .error _ => none
  | .ok image =>
    match (Machine.new (.ofImage 256 image)).runLimited 10000 with
    | (m, .ok _) => some (m.regs, m.out.text)
    | (_, .error _) => none

def encodes : Check where
  name := "Decimal encode 12.034"
  passed := match Triple.ofBinary64 (number false 12034 (-3)) with
    | .ok t => t == ⟨12, 34, 1⟩
    | .error _ => false

def decodes : Check where
  name := "Decimal decode (12, 34, 1)"
  passed := near (Triple.mk 12 34 1).toBinary64 (number false 12034 (-3)) (number false 1 (-9))

def roundTrip : Check where
  name := "Decimal round trip"
  passed := [number false 0 0, number false 15 (-1), number true 225 (-2), number false 1 (-3),
    number true 5 (-1), number false 123456789012 (-6)].all survives

def integerSum : Check where
  name := "Integer ADD 7 + 3"
  passed := (runSource "LII R0A 1\nLII R1A 7\nLII R1B 3\nADD R1A R1B\nHLT").any
    fun (regs, _) => regs.word Registers.r1a == 10

def decimalProduct : Check where
  name := "Decimal MUL 1.5 * 2"
  passed := (runSource
    "LII R0A 2\nLII R1A 1\nLII R2A 5\nLII R3A 0\nLII R1B 2\nMUL R1A R1B\nPRNT\nHLT").any
    fun (_, out) => out == "3\n"

def typedPrint : Check where
  name := "PRNT bool and int"
  passed := (runSource "LII R0A 0\nLII R1A 1\nPRNT\nLII R0A 1\nLII R1A -42\nPRNT\nHLT").any
    fun (_, out) => out == "true\n-42\n"

def stackOrder : Check where
  name := "PUSH/POP LIFO"
  passed :=
    (runSource "LII R1A 11\nLII R2A 22\nPUSH R1A\nPUSH R2A\nPOP R3A\nPOP R4A\nHLT").any
    fun (regs, _) => (regs.r.toList.drop 3).take 2 == [22, 11]

def unknownOpcode : Check where
  name := "Unknown opcode faults in place"
  passed :=
    match (Machine.new ⟨#[Opcode.clf.cell, 99, Opcode.hlt.cell]⟩).run with
    | (m, .error (.unknownOpcode 99 1)) => m.pc == 1
    | _ => false

def checks : List Check :=
  [encodes, decodes, roundTrip, integerSum, decimalProduct, typedPrint, stackOrder, unknownOpcode]

def Check.line (c : Check) : String := c.name ++ "... " ++ (if c.passed then "✓" else "✗") ++ "\n"

def report : Bool × String :=
  let passed := checks.countP (·.passed)
  let failed := checks.length - passed
  let verdict := if failed = 0 then "✓ All tests passed!\n" else ""
  (failed == 0,
    "━━━ regvm Self-Test ━━━\n\n" ++ String.join (checks.map Check.line) ++
      "\n━━━━━━━━━━━━━━━━━━━━━━━━━━━━━━\n" ++
      s!"Results: {passed} passed, {failed} failed\n" ++ verdict)

end CellMachine.SelfTest
