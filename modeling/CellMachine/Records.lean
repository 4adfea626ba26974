import CellMachine.Json.Parser
import CellMachine.Json.Printer
import CellMachine.Json.Record
import CellMachine.Machine.Basic

/-!
# CellMachine.Records

The JSON forms of the data of a machine. Each type has `toJson` and `ofJson?`; members are written
in the order of the type's fields.

* `Core.snapshot`, `Core.ofSnapshot?` — a processor as a text, and back.
* `Config.parse?`                     — settings from a text; what is not given has its default.
-/

namespace CellMachine

namespace Json

def word (w : Word) : Json := .int w.toInt

end Json

namespace Triple

def toJson (t : Triple) : Json :=
  .record [("ipart", .word t.ipart), ("frac", .word t.frac), ("lz", .word t.lz)]

def ofJson? (v : Json) : Option Triple := do
  let fields ← v.record? ["ipart", "frac", "lz"]
  return ⟨← Json.required fields "ipart" Json.word?, ← Json.required fields "frac" Json.word?,
    ← Json.required fields "lz" Json.word?⟩

end Triple

namespace Flags

def toJson (f : Flags) : Json :=
  .record [("zero", .bool f.zero), ("ltz", .bool f.ltz), ("gtz", .bool f.gtz)]

def ofJson? (v : Json) : Option Flags := do
  let fields ← v.record? ["zero", "ltz", "gtz"]
  return ⟨← Json.required fields "zero" Json.bool?, ← Json.required fields "ltz" Json.bool?,
    ← Json.required fields "gtz" Json.bool?⟩

end Flags

namespace Registers

def toJson (regs : Registers) : Json :=
  .record [("r", .list .word regs.r.toList), ("flags", regs.flags.toJson)]

def wordsOfJson? (v : Json) : Option (Vector Word 16) := do
  let words ← v.listOf? Json.word?
  if h : words.toArray.size = 16 then some ⟨words.toArray, h⟩ else none

def ofJson? (v : Json) : Option Registers := do
  let fields ← v.record? ["r", "flags"]
  return ⟨← Json.required fields "r" wordsOfJson?, ← Json.required fields "flags" Flags.ofJson?⟩

end Registers

namespace Instruction

/-- The name of the operation, and an object of the operands if there are any. -/
def toJson (i : Instruction) : Json :=
  let names := i.opcode.fields.map (·.name)
  if names.isEmpty then .text i.opcode.name
  else .record [(i.opcode.name, .record (names.zip (i.operands.map .word)))]

def operandsOfJson? (names : List String) (v : Json) : Option (List Word) := do
  let fields ← v.record? names
  names.mapM fun name => Json.required fields name Json.word?

/-- With `lists`, operands may also be given as a list. -/
def ofJson? (lists : Bool) (v : Json) : Option Instruction := do
  let (name, content) ← v.variant?
  let op ← Opcode.all.find? (·.name == name)
  if op.fields.isEmpty then
    if content.all Json.isNull then some (ofParts op 0 0) else none
  else
    let v ← content
    if v matches .arr _ ∧ !lists then none
    let operands ← operandsOfJson? (op.fields.map (·.name)) v
    return ofParts op (operands.getD 0 0) (operands.getD 1 0)

end Instruction

namespace UnknownOpcode

def all : List UnknownOpcode := [.fault, .ignore]

def name : UnknownOpcode → String
  | .fault => "fault"
  | .ignore => "ignore"

end UnknownOpcode

namespace Config

def toJson (c : Config) : Json :=
  .record [("debug", .bool c.debug), ("unknown_opcode", .text c.unknownOpcode.name)]

def ofJson? (v : Json) : Option Config := do
  let fields ← v.record? ["debug", "unknown_opcode"]
  return ⟨← Json.optional fields "debug" false Json.bool?,
    ← Json.optional fields "unknown_opcode" .fault
      (Json.oneOf? UnknownOpcode.all UnknownOpcode.name)⟩

def parse? (text : String) : Option Config := (Json.parse? text).bind ofJson?

end Config

namespace Core

def fieldNames : List String :=
  ["regs", "pc", "sp", "inst", "dest", "src", "state", "cycles", "last_instr"]

def toJson (c : Core) : Json :=
  .record
    [("regs", c.regs.toJson), ("pc", .word c.pc), ("sp", .word c.sp), ("inst", .word c.inst),
     ("dest", .word c.dest), ("src", .word c.src), ("state", .text c.status.name),
     ("cycles", .nat c.cycles.toNat), ("last_instr", .option Instruction.toJson c.lastInstr)]

/-- The last instruction may be left out. -/
def ofJson? (v : Json) : Option Core := do
  let fields ← v.record? fieldNames
  let word (name : String) := Json.required fields name Json.word?
  return {
    regs := ← Json.required fields "regs" Registers.ofJson?
    pc := ← word "pc"
    sp := ← word "sp"
    inst := ← word "inst"
    dest := ← word "dest"
    src := ← word "src"
    status := ← Json.required fields "state" (Json.oneOf? Status.all Status.name)
    cycles := ← Json.required fields "cycles" Json.uint64?
    lastInstr := ←
      Json.optional fields "last_instr" none (Json.option? (Instruction.ofJson? true)) }

/-- The processor as a JSON text with every item on a line of its own. -/
def snapshot (c : Core) : String := c.toJson.pretty

def ofSnapshot? (text : String) : Option Core := (Json.parse? text).bind ofJson?

end Core

end CellMachine
