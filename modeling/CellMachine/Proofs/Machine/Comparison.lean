import CellMachine.Proofs.Decimal.Range
import CellMachine.Proofs.Machine.Execution
import CellMachine.Proofs.Machine.Invariant

/-!
# CellMachine.Proofs.Machine.Comparison

Comparisons and the jumps that follow them.

* `Registers.Compared`  — the order that a comparison finds, of integers or of decimals.
* `Condition.Relates`   — the orders on which a jump is taken.
* `Machine.comparison_decides` — a comparison sets the flag of the order and no other, and a jump
  behind it is taken if the order is its own.

The words of a decimal are arbitrary; what they denote is finite, and finite numbers are ordered.
-/

namespace CellMachine

namespace Registers

variable {regs : Registers} {x : Binary64} {index : Word}

theorem exists_toRat?_readDecimal (h : regs.readDecimal index = .ok x) :
    ∃ p, x.toRat? = some p := by
  obtain ⟨i, -, rfl⟩ := map_eq_ok_iff.mp h
  exact Binary64.isFinite_iff.mp (Triple.isFinite_toBinary64 _)

theorem exists_toRat?_sourceNumber (h : regs.sourceNumber index = .ok x) :
    ∃ p, x.toRat? = some p := by
  unfold sourceNumber at h
  split at h
  · exact exists_toRat?_readDecimal h
  · obtain ⟨w, -, rfl⟩ := map_eq_ok_iff.mp h
    exact Binary64.isFinite_iff.mp (Binary64.isFinite_ofInt w)

/-- The order that a comparison finds: of a register and a constant, of two registers, or, if the
destination group is tagged so, of the exact values of two decimals. -/
inductive Compared (regs : Registers) : Instruction → Ordering → Prop where
  | constant {dest imm a : Word} (ha : regs.get dest = .ok a) :
      Compared regs (.cmpi dest imm) (compare a.toInt imm.toInt)
  | words {dest src a b : Word} (ht : regs.word r0a ≠ 2) (ha : regs.get dest = .ok a)
      (hb : regs.get src = .ok b) :
      Compared regs (.cmp dest src) (compare a.toInt b.toInt)
  | numbers {dest src : Word} {x y : Binary64} {p q : ℚ} (ht : regs.word r0a = 2)
      (hx : regs.readDecimal dest = .ok x) (hy : regs.sourceNumber src = .ok y)
      (hp : x.toRat? = some p) (hq : y.toRat? = some q) :
      Compared regs (.cmp dest src) (compare p q)

end Registers

def Instruction.IsComparison : Instruction → Prop
  | .cmp .. | .cmpi .. => True
  | _ => False

/-- The orders on which a jump is taken. -/
def Condition.Relates (o : Ordering) : Condition → Prop
  | .less => o = .lt
  | .greater => o = .gt
  | .equal => o = .eq
  | .unequal => o ≠ .eq
  | .always => True

theorem Condition.holdsOn_ofOrdering {c : Condition} {o : Ordering} :
    c.HoldsOn (.ofOrdering o) ↔ c.Relates o := by
  cases c <;> cases o <;> simp [HoldsOn, Relates, Flags.ofOrdering]

namespace Machine

variable {m m' : Machine} {i : Instruction} {o : Ordering}

/-- The numbers of an instruction are never unordered. -/
theorem compare_numbers {x y : Binary64} (h : m.numbers = .ok (x, y)) :
    ∃ p q, x.toRat? = some p ∧ y.toRat? = some q ∧ x.compare y = some (compare p q) := by
  obtain ⟨hx, hy⟩ := numbers_eq_ok h
  obtain ⟨p, hp⟩ := Registers.exists_toRat?_readDecimal hx
  obtain ⟨q, hq⟩ := Registers.exists_toRat?_sourceNumber hy
  exact ⟨p, q, hp, hq, Binary64.compare_of_toRat? hp hq⟩

/-- A comparison that does not fail changes nothing but the flags. -/
theorem act_comparison {inst dest src : Word} (hi : i.IsComparison)
    (hoperands : i.operands <+: [dest, src])
    (h : Exec.act i (m.fetched inst dest src) = (m', .ok ())) :
    ∃ o, m.regs.Compared i o ∧ m' = (m.fetched inst dest src).apply (.flags (.ofOrdering o)) := by
  cases i with
  | cmpi d imm =>
    obtain ⟨a, ha, h⟩ := Exec.read_bind_eq_ok h
    cases h
    exact ⟨_, .constant (mapError_eq_ok_iff.mp ha), rfl⟩
  | cmp d s =>
    obtain ⟨_, heq⟩ := hoperands
    cases heq
    change Exec.compare dest src _ = _ at h
    unfold Exec.compare at h
    rw [Exec.machine_bind] at h
    split at h
    · rename_i ht
      obtain ⟨⟨x, y⟩, hnumbers, h⟩ := Exec.read_bind_eq_ok h
      cases h
      obtain ⟨p, q, hp, hq, hcompare⟩ := compare_numbers hnumbers
      obtain ⟨hx, hy⟩ := numbers_eq_ok hnumbers
      refine ⟨_, .numbers (Registers.tagA_eq_float_iff.mp ht) hx hy hp hq, ?_⟩
      rw [Flags.ofNumbers, hcompare]
      rfl
    · rename_i ht
      obtain ⟨a, ha, h⟩ := Exec.read_bind_eq_ok h
      obtain ⟨b, hb, h⟩ := Exec.read_bind_eq_ok h
      cases h
      exact ⟨_, .words (fun hw => ht (Registers.tagA_eq_float_iff.mpr hw))
        (mapError_eq_ok_iff.mp ha) (mapError_eq_ok_iff.mp hb), rfl⟩
  | _ => exact hi.elim

theorem step_comparison (hn : Word.Covers m.mem.size) (hi : i.IsComparison)
    (h : m.step = (m', .ok (some i))) :
    ∃ o, m.regs.Compared i o ∧ m'.regs = { m.regs with flags := .ofOrdering o } ∧
      m'.status = .running := by
  obtain ⟨hr, -⟩ := attempt_of_step_ok h
  obtain ⟨inst, dest, src, m₁, out, hoperands, hact, -, rfl⟩ := act_of_step_ok hn h
  obtain ⟨o, hcompared, rfl⟩ := act_comparison hi hoperands hact
  exact ⟨o, hcompared, rfl, hr⟩

/-- Whatever the registers hold, a decimal is finite and two numbers are ordered. A comparison that
does not fail sets one flag, that of the order it finds, and a jump at the next address is taken
exactly if this order is one of its own. -/
theorem comparison_decides :
    (∀ t : Triple, t.toBinary64.isFinite = true) ∧
    (∀ (m : Machine) (x y : Binary64), m.numbers = .ok (x, y) → x.compare y ≠ none) ∧
    ∀ (m m' : Machine) (i : Instruction), Word.Covers m.mem.size → i.IsComparison →
      m.step = (m', .ok (some i)) →
      ∃ o, m.regs.Compared i o ∧
        [m'.regs.flags.zero, m'.regs.flags.ltz, m'.regs.flags.gtz].count true = 1 ∧
        (m'.regs.flags.ltz = true ↔ o = .lt) ∧ (m'.regs.flags.gtz = true ↔ o = .gt) ∧
        (m'.regs.flags.zero = true ↔ o = .eq) ∧
        ∀ (c : Condition) (target : Word), m'.TakesTrace → m'.Holds (.jump c target) →
          ∃ m'', m'.step = (m'', .ok (some (.jump c target))) ∧
            (c.Relates o → m''.next = target + 1) ∧
            (¬c.Relates o → m''.next = m'.next + 2) := by
  refine ⟨Triple.isFinite_toBinary64, ?_, ?_⟩
  · intro m x y hnumbers
    obtain ⟨p, q, -, -, hcompare⟩ := compare_numbers hnumbers
    rw [hcompare]
    exact Option.some_ne_none _
  · intro m m' i hn hi h
    obtain ⟨o, hcompared, hregs, hr⟩ := step_comparison hn hi h
    have htaken : ∀ c, m'.jumps c = true ↔ Condition.Relates o c := by
      intro c
      rw [jumps_iff, hregs]
      exact Condition.holdsOn_ofOrdering
    rw [hregs]
    refine ⟨o, hcompared, ?_, beq_iff_eq, beq_iff_eq, beq_iff_eq, ?_⟩
    · cases o <;> rfl
    · intro c target hout hholds
      obtain ⟨m'', hstep, hnext, -⟩ := step_jump hr hout hholds
      refine ⟨m'', hstep, ?_, ?_⟩
      · intro hrelates
        rw [hnext, if_pos ((htaken c).mpr hrelates)]
      · intro hrelates
        rw [hnext, if_neg fun htake => hrelates ((htaken c).mp htake)]

/-- `CMP 1, 9` of a decimal and an integer, and `JEZ 100`. The decimal has the fraction of the
largest magnitude behind as many zeros as there can be, so its power of ten is infinite, and it is
zero. -/
theorem comparison_decides_zero :
    let m : Machine := { new ⟨#[1, 1, 9, 18, 100]⟩ with
      regs := { r := #v[2, 0, Int64.minValue, Int64.maxValue, 0, 0, 0, 0,
        1, 0, 0, 0, 0, 0, 0, 0] } }
    ∃ m' m'', m.step = (m', .ok (some (.cmp 1 9))) ∧ m'.regs.flags = { zero := true } ∧
      m'.step = (m'', .ok (some (.jump .equal 100))) ∧ m''.next = 101 := by
  intro m
  have hcompare : m.step = (m.step.1, .ok (some (.cmp 1 9))) := Prod.ext rfl (by decide +kernel)
  have hflags : m.step.1.regs.flags = { zero := true } := by decide +kernel
  obtain ⟨o, -, -, -, -, hzero, hjump⟩ :=
    comparison_decides.2.2 m m.step.1 (.cmp 1 9) (by decide) trivial hcompare
  have hholds : m.step.1.Holds (.jump .equal 100) :=
    ⟨3, by decide +kernel, by decide +kernel⟩
  have hout : m.step.1.TakesTrace := fun hdebug => absurd hdebug (by decide +kernel)
  obtain ⟨m'', hstep, htaken, -⟩ := hjump .equal 100 hout hholds
  have ho : o = .eq := hzero.mp (by rw [hflags])
  exact ⟨m.step.1, m'', hcompare, hflags, hstep, htaken ho⟩

end Machine

end CellMachine
