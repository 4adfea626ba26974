import CellMachine.Listing
import CellMachine.Proofs.Machine.Execution

/-!
# CellMachine.Proofs.Machine.Boundaries

Steps against the listing of memory: both walk over the cells from instruction to instruction.

* `Exec.first_width_of_decoded` — a listing takes as many cells for a line as a fetch takes for an
  instruction.
* `Machine.pc_of_execute`       — where an instruction leaves the program counter.
* `Machine.step_meets_listing`  — a step goes on behind the line that is listed at its address, or
  at the target of a jump that it takes.
-/

namespace CellMachine

/-- A cell that is passed over is listed by itself. -/
theorem Exec.first_width_of_decoded {m : Machine} {cells : List Word} {i : Option Instruction}
    (h : decoded m cells = .ok i) : (Listing.first cells).2 = i.elim 1 Instruction.width := by
  unfold Listing.first
  rcases decoded_eq_ok h with ⟨j, rfl, hj⟩ | ⟨rfl, w, hw⟩
  · rw [hj]
    rfl
  · rw [hw]
    rfl

namespace Machine

variable {m m' : Machine}

theorem pc_apply {e : Effect} (h : ∀ pc, e ≠ .jump pc) (m : Machine) : (m.apply e).pc = m.pc := by
  cases e with
  | jump pc => exact absurd rfl (h pc)
  | _ => rfl

theorem pc_act (i : Instruction) (m : Machine) : (Exec.act i m).1.pc = m.pc := by
  have hwithin : Exec.Within (fun _ e => ∀ pc, e ≠ .jump pc) (Exec.act i) := by
    refine (Exec.within_act i).mono ?_
    rintro m e he pc rfl
    exact he
  exact (hwithin m).keeps (P := fun m' => m'.pc = m.pc)
    (fun m' _ hm he => (pc_apply he m').trans hm) rfl

/-- A jump looks at the flags before it; any other instruction leaves the program counter on its
last cell, whatever it has done to the cells. -/
theorem pc_of_execute {i : Instruction} (h : Exec.execute i m = (m', .ok ())) :
    m'.pc = m.pcAfter i := by
  obtain ⟨m₁, _, hact, hjump⟩ := Exec.bind_eq_ok h
  cases hjump
  show m₁.pcAfter i = m.pcAfter i
  have hpc := pc_act i m
  rw [hact] at hpc
  cases i with
  | jump c target =>
    cases hact
    rfl
  | _ => exact congrArg (· + _) hpc

/-- `i` is a jump to `target`, and the flags are such that it is taken. -/
def JumpsTo (m : Machine) (i : Option Instruction) (target : Word) : Prop :=
  ∃ c : Condition, i = some (.jump c target) ∧ c.HoldsOn m.regs.flags

theorem pcAfter_cases (m : Machine) (i : Instruction) :
    (∃ target, m.JumpsTo (some i) target ∧ m.pcAfter i = target) ∨
      (∀ target, ¬m.JumpsTo (some i) target) ∧ m.pcAfter i + 1 = m.pc + Int64.ofNat i.width := by
  have hlast : m.pc + Int64.ofNat (i.width - 1) + 1 = m.pc + Int64.ofNat i.width := by
    have hwidth : i.width - 1 + 1 = i.width := Nat.sub_add_cancel i.opcode.width_pos
    rw [Int64.add_assoc, show (1 : Word) = Int64.ofNat 1 from rfl, ← Int64.ofNat_add, hwidth]
  cases i with
  | jump c target =>
    by_cases htaken : m.jumps c = true
    · exact .inl ⟨target, ⟨c, rfl, jumps_iff.mp htaken⟩, if_pos htaken⟩
    · refine .inr ⟨?_, (congrArg (· + 1) (if_neg htaken)).trans hlast⟩
      rintro _ ⟨_, ⟨⟩, hholds⟩
      exact htaken (jumps_iff.mpr hholds)
  | _ =>
    refine .inr ⟨?_, hlast⟩
    rintro _ ⟨_, ⟨⟩, -⟩

/-- A step that does not fail has carried out the instruction that is decoded, and listed, at its
address, or passed over one cell. If this is a jump that is taken, the program counter is at its
target, and otherwise the next address is that behind the line of the listing. -/
theorem step_meets_listing {i : Option Instruction} (h : m.step = (m', .ok i)) :
    let cells := m.mem.cells.toList.drop m.next.toInt.toNat
    (∀ j, i = some j → Instruction.decode cells = .ok j) ∧
      (i = none → (Listing.first cells).2 = 1) ∧
      ((∃ target, m.JumpsTo i target ∧ m'.pc = target) ∨
        (∀ target, ¬m.JumpsTo i target) ∧
          m'.next = m.next + Int64.ofNat (Listing.first cells).2) := by
  intro cells
  obtain ⟨m₁, m₂, out, hfetch, hexecute, -, rfl⟩ := execute_of_step_ok h
  obtain ⟨p, inst, dest, src, hp, -, rfl, hdecoded⟩ := fetch_eq_ok hfetch
  have hcells : m.mem.cells.toList.drop p = cells := by
    show _ = m.mem.cells.toList.drop m.next.toInt.toNat
    rw [hp, Int.toNat_natCast]
  rw [hcells] at hdecoded
  rw [Exec.first_width_of_decoded hdecoded]
  refine ⟨?_, ?_, ?_⟩
  · rintro j rfl
    rcases decoded_eq_ok hdecoded with ⟨_, ⟨⟩, hj⟩ | ⟨⟨⟩, -⟩
    exact hj
  · rintro rfl
    rfl
  · show (∃ target, m.JumpsTo i target ∧ m₂.pc = target) ∨
      (∀ target, ¬m.JumpsTo i target) ∧ m₂.pc + 1 = m.next + Int64.ofNat (i.elim 1 _)
    cases i with
    | none =>
      cases hexecute
      refine .inr ⟨?_, rfl⟩
      rintro _ ⟨_, ⟨⟩, -⟩
    | some j =>
      rw [pc_of_execute hexecute]
      exact (m.fetched inst dest src).pcAfter_cases j

/-- `STI 1, 9` over its own opcode cell: a listing after the step has `HLT` in one cell there, and
the next address is still behind the three cells of the instruction. -/
theorem step_meets_listing_overwritten :
    let m : Machine := { new ⟨#[31, 4, 1, 9, 31]⟩ with
      pc := 0, regs := { r := #v[0, 0, 0, 0, 0, 0, 0, 0, 0, 31, 0, 0, 0, 0, 0, 0] } }
    ∃ m', m.step = (m', .ok (some (.sti 1 9))) ∧ m'.mem = ⟨#[31, 31, 1, 9, 31]⟩ ∧
      m'.next = 4 := by
  intro m
  have hresult : m.step.2 = .ok (some (.sti 1 9)) := by decide +kernel
  have hmem : m.step.1.mem = ⟨#[31, 31, 1, 9, 31]⟩ := by decide +kernel
  have hwidth : (Listing.first (m.mem.cells.toList.drop m.next.toInt.toNat)).2 = 3 := by
    decide +kernel
  obtain ⟨m', hstep⟩ : ∃ m', m.step = (m', .ok (some (.sti 1 9))) :=
    ⟨m.step.1, by rw [← hresult]⟩
  rw [hstep] at hmem
  obtain ⟨-, -, ⟨_, ⟨_, ⟨⟩, -⟩, -⟩ | ⟨-, hnext⟩⟩ := step_meets_listing hstep
  rw [hwidth] at hnext
  exact ⟨m', hstep, hmem, hnext⟩

end Machine

end CellMachine
