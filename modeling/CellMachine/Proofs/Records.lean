import CellMachine.Proofs.Json.Record

/-!
# CellMachine.Proofs.Records

The data of a processor is read back from its JSON form.

* `Instruction.ofJson?_toJson` — each of the instructions, with its own names of operands.
* `Registers.ofJson?_toJson`   — the sixteen registers and the flags.
* `Core.ofJson?_record`        — a processor, with what is said about its last instruction.
* `Core.ofSnapshot?_snapshot`  — the text of a processor, whole and without its last instruction.
-/

namespace CellMachine

namespace Json

/-- An object without its members of one name. -/
def without (name : String) : Json → Json
  | .obj members => .obj (members.filter (·.1 != some name))
  | v => v

theorem Plain.without {v : Json} (h : Plain v) (name : String) : Plain (v.without name) := by
  cases h with
  | obj hname hvalue =>
    exact .obj (fun p hp => hname p (List.mem_filter.mp hp).1)
      fun p hp => hvalue p (List.mem_filter.mp hp).1
  | null => exact .null
  | bool b => exact .bool b
  | int z => exact .int z
  | text s => exact .text s
  | arr h => exact .arr h

end Json

/-! ## Registers and flags -/

theorem Flags.plain_toJson (f : Flags) : f.toJson.Plain := by
  refine .record ?_
  simp only [List.forall_mem_cons]
  exact ⟨.bool _, .bool _, .bool _, nofun⟩

theorem Flags.ofJson?_toJson (f : Flags) : ofJson? f.toJson = some f := by
  rw [ofJson?, toJson, Json.record?_record]
  · rfl
  · exact List.Sublist.refl _
  · decide

theorem Registers.plain_toJson (regs : Registers) : regs.toJson.Plain := by
  refine .record ?_
  simp only [List.forall_mem_cons]
  exact ⟨.list Json.plain_word, regs.flags.plain_toJson, nofun⟩

theorem Registers.wordsOfJson?_list (r : Vector Word 16) :
    wordsOfJson? (.list .word r.toList) = some r := by
  rw [wordsOfJson?, Json.listOf?_list Json.word?_word]
  exact dif_pos r.size_toArray

theorem Registers.ofJson?_toJson (regs : Registers) : ofJson? regs.toJson = some regs := by
  rw [ofJson?, toJson, Json.record?_record]
  · simp (disch := decide) only [Option.bind_eq_bind, Option.bind_some, Json.required_cons_self,
      Json.required_cons_of_ne, wordsOfJson?_list, Flags.ofJson?_toJson]
    rfl
  · exact List.Sublist.refl _
  · decide

/-! ## Instructions -/

namespace Instruction

variable {i : Instruction}

theorem toJson_of_fields_eq_nil (h : i.opcode.fields = []) : i.toJson = .text i.opcode.name := by
  rw [toJson, h]
  rfl

theorem toJson_of_fields_ne_nil (h : i.opcode.fields ≠ []) :
    i.toJson = .record [(i.opcode.name,
      .record ((i.opcode.fields.map (·.name)).zip (i.operands.map .word)))] := by
  rw [toJson]
  exact if_neg (by rwa [List.isEmpty_map, List.isEmpty_iff])

theorem plain_toJson (i : Instruction) : i.toJson.Plain := by
  by_cases h : i.opcode.fields = []
  · rw [toJson_of_fields_eq_nil h]
    exact .text _
  · rw [toJson_of_fields_ne_nil h]
    refine .record (List.forall_mem_singleton.mpr (.record fun p hp => ?_))
    obtain ⟨w, -, hw⟩ := List.mem_map.mp (List.of_mem_zip hp).2
    exact hw ▸ Json.plain_word w

theorem isNull_toJson (i : Instruction) : i.toJson.isNull = false := by
  by_cases h : i.opcode.fields = []
  · rw [toJson_of_fields_eq_nil h]
    rfl
  · rw [toJson_of_fields_ne_nil h]
    rfl

theorem find?_name (op : Opcode) : Opcode.all.find? (·.name == op.name) = some op := by
  have h : ∀ op ∈ Opcode.all, Opcode.all.find? (·.name == op.name) = some op := by decide
  exact h op op.mem_all

theorem nodup_fields (op : Opcode) : (op.fields.map (·.name)).Nodup := by
  have h : ∀ op ∈ Opcode.all, (op.fields.map (·.name)).Nodup := by decide
  exact h op op.mem_all

theorem operandsOfJson?_record {names : List String} {ws : List Word} (hnames : names.Nodup)
    (hlen : names.length = ws.length) :
    operandsOfJson? names (.record (names.zip (ws.map .word))) = some ws := by
  have hfst : (names.zip (ws.map Json.word)).map (·.1) = names :=
    List.map_fst_zip (by rw [List.length_map, hlen])
  have hfields : ((names.zip (ws.map Json.word)).map (·.1)).Sublist names := by
    simp only [hfst, List.Sublist.refl]
  rw [operandsOfJson?, Json.record?_record hfields hnames]
  exact Json.mapM_required_zip Json.word?_word hnames hlen

/-- The name says which operation it is, and its operands follow by their names. -/
theorem ofJson?_toJson (lists : Bool) (i : Instruction) : ofJson? lists i.toJson = some i := by
  by_cases h : i.opcode.fields = []
  · have hi : ofParts i.opcode 0 0 = i := by
      have hoperands : i.operands = [] := List.eq_nil_of_length_eq_zero (by
        rw [i.length_operands, h]
        rfl)
      have hi := i.ofParts_operands
      rwa [hoperands] at hi
    rw [toJson_of_fields_eq_nil h]
    show (Opcode.all.find? (·.name == i.opcode.name)).bind _ = _
    rw [find?_name, Option.bind_some, h]
    exact congrArg some hi
  · have hoperands := operandsOfJson?_record (nodup_fields i.opcode)
      (by rw [List.length_map, i.length_operands])
    rw [toJson_of_fields_ne_nil h]
    show (Opcode.all.find? (·.name == i.opcode.name)).bind _ = _
    rw [find?_name, Option.bind_some, List.isEmpty_eq_false_iff.mpr h]
    show (operandsOfJson? _ _).bind _ = _
    rw [hoperands]
    exact congrArg some i.ofParts_operands

end Instruction

/-! ## Processors -/

theorem Status.ofJson?_name (s : Status) : Json.oneOf? all name (.text s.name) = some s := by
  cases s <;> rfl

namespace Core

variable {c : Core}

/-- All members but the one for the last instruction. -/
def fieldsBeforeLast (c : Core) : List (String × Json) :=
  [("regs", c.regs.toJson), ("pc", .word c.pc), ("sp", .word c.sp), ("inst", .word c.inst),
   ("dest", .word c.dest), ("src", .word c.src), ("state", .text c.status.name),
   ("cycles", .nat c.cycles.toNat)]

theorem toJson_eq_record (c : Core) :
    c.toJson = .record (c.fieldsBeforeLast ++
      [("last_instr", .option Instruction.toJson c.lastInstr)]) := rfl

theorem without_lastInstr_toJson (c : Core) :
    c.toJson.without "last_instr" = .record (c.fieldsBeforeLast ++ []) := rfl

theorem plain_toJson (c : Core) : c.toJson.Plain := by
  refine .record ?_
  simp only [List.forall_mem_cons]
  exact ⟨c.regs.plain_toJson, Json.plain_word _, Json.plain_word _, Json.plain_word _,
    Json.plain_word _, Json.plain_word _, .text _, .int _, .option Instruction.plain_toJson _, nofun⟩

/-- The processor that a record says, whatever `rest` says about the last instruction. -/
theorem ofJson?_record {rest : List (String × Json)} {last : Option Instruction}
    (hfields : ((c.fieldsBeforeLast ++ rest).map (·.1)).Sublist fieldNames)
    (hlast : Json.optional (c.fieldsBeforeLast ++ rest) "last_instr" none
      (Json.option? (Instruction.ofJson? true)) = some last) :
    ofJson? (.record (c.fieldsBeforeLast ++ rest)) = some { c with lastInstr := last } := by
  rw [ofJson?, Json.record?_record hfields (by decide)]
  -- `rest` stays closed until `hlast` has been used.
  simp only [Option.bind_eq_bind, Option.bind_some, hlast]
  simp (disch := decide) only [fieldsBeforeLast, List.cons_append, Json.required_cons_self,
    Json.required_cons_of_ne, Registers.ofJson?_toJson, Json.word?_word, Json.uint64?_nat,
    Status.ofJson?_name, Option.bind_some]
  rfl

theorem ofJson?_toJson (c : Core) : ofJson? c.toJson = some c := by
  rw [toJson_eq_record]
  exact ofJson?_record (List.Sublist.refl _)
    (Json.option?_option (Instruction.ofJson?_toJson true) Instruction.isNull_toJson c.lastInstr)

theorem ofJson?_without_lastInstr (c : Core) :
    ofJson? (c.toJson.without "last_instr") = some { c with lastInstr := none } := by
  rw [without_lastInstr_toJson]
  exact ofJson?_record (List.take_sublist 8 fieldNames) rfl

/-- A processor is read back from its text; without what the text says about the last instruction,
in either layout, it is read back without one. -/
theorem ofSnapshot?_snapshot (c : Core) :
    ofSnapshot? c.snapshot = some c ∧
      ofSnapshot? (c.toJson.without "last_instr").pretty = some { c with lastInstr := none } ∧
      ofSnapshot? (c.toJson.without "last_instr").compact = some { c with lastInstr := none } := by
  have hwithout := c.plain_toJson.without "last_instr"
  refine ⟨?_, ?_, ?_⟩
  · rw [ofSnapshot?, snapshot, Json.pretty, Json.parse?_write Json.Layout.blank_pretty c.plain_toJson]
    exact c.ofJson?_toJson
  · rw [ofSnapshot?, Json.pretty, Json.parse?_write Json.Layout.blank_pretty hwithout]
    exact c.ofJson?_without_lastInstr
  · rw [ofSnapshot?, Json.compact, Json.parse?_write Json.Layout.blank_compact hwithout]
    exact c.ofJson?_without_lastInstr

end Core

end CellMachine
