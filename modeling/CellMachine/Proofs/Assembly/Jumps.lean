import CellMachine.Proofs.Assembly.Passes
import CellMachine.Proofs.Machine.Execution

/-!
# CellMachine.Proofs.Assembly.Jumps

Jumps to labels. The operand of such a jump is the address before its label, and a step fetches
behind the program counter: so the next instruction after the jump is the one at the label.

* `Placed.holds`        — a machine whose memory has the cells of a statement holds its instruction.
* `step_jump_to_label`  — a jump in an assembled source goes on at its label.
-/

namespace CellMachine

namespace Assembly

/-- The cells of an instruction in an image. -/
theorem Placed.getElem? {ls : List Line} {image : Array Word} {i k : Nat} {l : Line} {op : Opcode}
    {os : List Operand} (h : Placed ls image) (hl : ls[i]? = some l)
    (hs : l.statement = some (.instruction op os)) (hk : k < op.width) :
    image[addrAt ls i + k]? =
      (instructionOf op (os.map (Operand.word (labelAddr ls)))).encode[k]? := by
  rw [← h.instruction i l op os hl hs, Array.toList_extract, List.extract_eq_take_drop,
    List.getElem?_take_of_lt (by omega), List.getElem?_drop, Array.getElem?_toList]

/-- A machine that is before a statement, with its cells in memory, holds its instruction. -/
theorem Placed.holds {ls : List Line} {image : Array Word} {i : Nat} {l : Line} {op : Opcode}
    {os : List Operand} {m : Machine} (h : Placed ls image) (hl : ls[i]? = some l)
    (hs : l.statement = some (.instruction op os)) (hnext : m.next = Int64.ofNat (addrAt ls i))
    (hcells : ∀ p, addrAt ls i ≤ p → p < addrAt ls i + op.width →
      m.mem.get? (Int64.ofNat p) = image[p]?) :
    m.Holds (instructionOf op (os.map (Operand.word (labelAddr ls)))) := by
  refine Machine.holds_of_get? fun k hk => ?_
  have hwidth : k < op.width := by
    rwa [Instruction.length_encode, Instruction.width, instructionOf,
      Instruction.opcode_ofParts] at hk
  rw [hnext, ← Int64.ofNat_add, hcells _ (Nat.le_add_right _ k) (by omega), h.getElem? hl hs hwidth]
  exact List.getElem?_eq_getElem hk

/-- A jump to a label in a source that assembles: its label is defined, and a step of a machine that
is before the jump, with the cells of the jump in memory, goes on at the label if the jump is taken
and behind the jump if not. The step changes neither registers nor flags, neither stack pointer nor
memory. -/
theorem step_jump_to_label {source : String} {image : Array Word} {ls : List Line} {i : Nat}
    {l : Line} {c : Condition} {key : String} {m : Machine}
    (himage : assemble source = .ok image) (hls : Reads source ls) (hl : ls[i]? = some l)
    (hs : l.statement = some (.instruction (.jump c) [.beforeLabel key]))
    (hr : m.status = .running) (hout : m.out.Accepts)
    (hpc : m.pc = Int64.ofNat (addrAt ls i) - 1)
    (hcells : ∀ p, addrAt ls i ≤ p → p < addrAt ls i + 2 →
      m.mem.get? (Int64.ofNat p) = image[p]?) :
    key ∈ labels ls ∧ ∃ m' j, m.step = (m', .ok (some j)) ∧
      (c.HoldsOn m.regs.flags → m'.pc + 1 = Int64.ofNat (labelAddr ls key)) ∧
      (¬c.HoldsOn m.regs.flags → m'.pc + 1 = Int64.ofNat (addrAt ls i + 2)) ∧
      m'.regs = m.regs ∧ m'.sp = m.sp ∧ m'.mem = m.mem := by
  obtain ⟨ls', hls', hwell, himage'⟩ := assemble_eq_ok_iff.mp himage
  obtain rfl := hls.unique hls'
  have hdefined : key ∈ labels ls := by
    refine hwell.defined l (List.mem_of_getElem? hl) key ?_
    rw [Line.references, hs]
    exact List.mem_singleton_self key
  have hnext : m.next = Int64.ofNat (addrAt ls i) := by
    rw [Machine.next, hpc, Int64.sub_add_cancel]
  have hoperand : instructionOf (.jump c)
      ([.beforeLabel key].map (Operand.word (labelAddr ls))) =
      .jump c (Int64.ofNat (labelAddr ls key) - 1) := rfl
  have hholds := (Placed.of_cells hwell.placed himage').holds hl hs hnext hcells
  rw [hoperand] at hholds
  obtain ⟨m', hstep, hnext', hsame⟩ := Machine.step_jump hr (fun _ => hout) hholds
  refine ⟨hdefined, m', _, hstep, fun hc => ?_, fun hc => ?_, hsame⟩
  · show m'.next = _
    rw [hnext', if_pos (Machine.jumps_iff.mpr hc), Int64.sub_add_cancel]
  · show m'.next = _
    rw [hnext', if_neg (mt Machine.jumps_iff.mp hc), hnext, Int64.ofNat_add]
    rfl

/-- A jump back to the first address: the label stands before two instructions, and the flag that
would stop the jump is not set. -/
theorem step_jump_to_label_back :
    let m : Machine := { Machine.new ⟨#[0, 19, -1, 0]⟩ with pc := 0 }
    assemble "loop: CLF\nJNZ Loop" = .ok #[0, 19, -1] ∧
      ∃ m' j, m.step = (m', .ok (some j)) ∧ m'.pc + 1 = 0 ∧ m'.mem = m.mem := by
  intro m
  have himage : assemble "loop: CLF\nJNZ Loop" = .ok #[0, 19, -1] := by decide
  have hreads : Reads "loop: CLF\nJNZ Loop"
      [⟨some "LOOP", some (.instruction .clf [])⟩,
        ⟨none, some (.instruction (.jump .unequal) [.beforeLabel "LOOP"])⟩] := by
    rw [reads_iff]
    decide
  have hout : m.out.Accepts := ⟨fun _ h => absurd h List.not_mem_nil, rfl⟩
  have hcells : ∀ p, 1 ≤ p → p < 1 + 2 →
      m.mem.get? (Int64.ofNat p) = (#[0, 19, -1] : Array Word)[p]? := by
    intro p hge hlt
    obtain rfl | rfl : p = 1 ∨ p = 2 := by omega
    · rfl
    · rfl
  obtain ⟨-, m', j, hstep, htaken, -, -, -, hmem⟩ :=
    step_jump_to_label (i := 1) himage hreads rfl rfl rfl hout rfl hcells
  exact ⟨himage, m', j, hstep, htaken rfl, hmem⟩

end Assembly

end CellMachine
