import CellMachine.Proofs.Machine.Invariant
import CellMachine.Proofs.Result

/-!
# CellMachine.Proofs.Machine.Runs

Runs against single steps. A run is limited by the cycle counter; here steps are counted.

* `Machine.steps` — up to so many steps, and their number.
* `Machine.Ends`  — stepping without a bound comes to an end.
* `runLimited_eq_steps`, `steps_add` — a run is its steps, and steps may be taken in two parts.
* `run_in_parts`  — a run may be broken off and taken up again, and a bound that is not reached
  does not matter.
-/

namespace CellMachine.Machine

/-- Up to `max` steps, as long as the machine runs and no step fails. The result is their number. -/
def steps : Nat → Machine → Machine × Except Fault Nat
  | 0, m => (m, .ok 0)
  | max + 1, m =>
    if m.status = .running then
      match m.step with
      | (m', .ok _) => ((steps max m').1, (steps max m').2.map (· + 1))
      | (m', .error f) => (m', .error f)
    else (m, .ok 0)

/-- Stepping as long as the machine runs ends in `m'` after `k` steps that do not fail: the machine
stops by itself, or the step after those fails. -/
inductive Ends : Machine → Nat → Machine → Except Fault Unit → Prop where
  | stopped {m : Machine} (h : m.status ≠ .running) : Ends m 0 m (.ok ())
  | failed {m m' : Machine} {f : Fault} (hr : m.status = .running)
      (h : m.step = (m', .error f)) : Ends m 0 m' (.error f)
  | step {m m₁ m' : Machine} {i : Option Instruction} {k : Nat} {r : Except Fault Unit}
      (h : m.step = (m₁, .ok i)) (hrest : Ends m₁ k m' r) : Ends m (k + 1) m' r

/-! ## Steps -/

section Steps

variable {m m' : Machine} {i : Option Instruction} {f : Fault}

theorem steps_of_not_running (h : m.status ≠ .running) (max : Nat) : m.steps max = (m, .ok 0) := by
  cases max with
  | zero => rfl
  | succ max => rw [steps, if_neg h]

theorem steps_succ_of_ok (h : m.step = (m', .ok i)) (max : Nat) :
    m.steps (max + 1) = ((m'.steps max).1, (m'.steps max).2.map (· + 1)) := by
  rw [steps, if_pos (attempt_of_step_ok h).1, h]

theorem steps_succ_of_error (hr : m.status = .running) (h : m.step = (m', .error f)) (max : Nat) :
    m.steps (max + 1) = (m', .error f) := by
  rw [steps, if_pos hr, h]

/-- A machine stops, fails in its next step, or takes it. -/
theorem step_cases (m : Machine) :
    m.status ≠ .running ∨ (m.status = .running ∧ ∃ m' f, m.step = (m', .error f)) ∨
      ∃ m' i, m.step = (m', .ok i) := by
  by_cases hr : m.status = .running
  · cases hs : m.step with
    | mk m' r =>
      cases r with
      | ok i => exact .inr (.inr ⟨m', i, rfl⟩)
      | error f => exact .inr (.inl ⟨hr, m', f, rfl⟩)
  · exact .inl hr

end Steps

/-- Each step counts one cycle. -/
theorem cycles_of_steps_ok {m m' : Machine} {max k : Nat} (h : m.steps max = (m', .ok k)) :
    k ≤ max ∧ m'.cycles = m.cycles + UInt64.ofNat k := by
  induction max generalizing m k with
  | zero =>
    cases h
    exact ⟨Nat.le_refl 0, (UInt64.add_zero _).symm⟩
  | succ max ih =>
    rcases m.step_cases with hr | ⟨hr, m₁, f, hs⟩ | ⟨m₁, i, hs⟩
    · rw [steps_of_not_running hr] at h
      cases h
      exact ⟨Nat.zero_le _, (UInt64.add_zero _).symm⟩
    · rw [steps_succ_of_error hr hs] at h
      cases h
    · rw [steps_succ_of_ok hs, Prod.mk.injEq] at h
      obtain ⟨k', hr, rfl⟩ := map_eq_ok_iff.mp h.2
      obtain ⟨hle, hcycles⟩ := ih (Prod.ext h.1 hr)
      refine ⟨Nat.succ_le_succ hle, ?_⟩
      rw [hcycles, cycles_of_step_ok hs, UInt64.add_assoc, UInt64.add_comm 1, UInt64.ofNat_add]
      rfl

/-- After steps that did not fail, more steps go on from where they ended. -/
theorem steps_add_of_ok {m m' : Machine} {a k : Nat} (h : m.steps a = (m', .ok k)) (b : Nat) :
    m.steps (a + b) = ((m'.steps b).1, (m'.steps b).2.map (k + ·)) := by
  have hzero : ∀ r : Except Fault Nat, r.map (0 + ·) = r := by
    intro r
    cases r with
    | error f => rfl
    | ok n => exact congrArg _ (Nat.zero_add n)
  induction a generalizing m k with
  | zero =>
    cases h
    rw [Nat.zero_add, hzero]
  | succ a ih =>
    rcases m.step_cases with hr | ⟨hr, m₁, f, hs⟩ | ⟨m₁, i, hs⟩
    · rw [steps_of_not_running hr] at h
      cases h
      rw [steps_of_not_running hr, steps_of_not_running hr]
      rfl
    · rw [steps_succ_of_error hr hs] at h
      cases h
    · rw [steps_succ_of_ok hs, Prod.mk.injEq] at h
      obtain ⟨k', hr, rfl⟩ := map_eq_ok_iff.mp h.2
      rw [Nat.add_right_comm, steps_succ_of_ok hs, ih (Prod.ext h.1 hr)]
      cases (m'.steps b).2 with
      | error f => rfl
      | ok n => exact congrArg (fun k => (_, Except.ok k)) (Nat.add_right_comm k' n 1)

/-- Steps that failed are the same with a larger bound. -/
theorem steps_add_of_error {m m' : Machine} {a : Nat} {f : Fault} (h : m.steps a = (m', .error f))
    (b : Nat) : m.steps (a + b) = (m', .error f) := by
  induction a generalizing m with
  | zero => cases h
  | succ a ih =>
    rw [Nat.add_right_comm]
    rcases m.step_cases with hr | ⟨hr, m₁, g, hs⟩ | ⟨m₁, i, hs⟩
    · rw [steps_of_not_running hr] at h
      cases h
    · rw [steps_succ_of_error hr hs] at h ⊢
      exact h
    · rw [steps_succ_of_ok hs, Prod.mk.injEq] at h
      rw [steps_succ_of_ok hs, ih (Prod.ext h.1 (map_eq_error_iff.mp h.2))]
      rfl

/-- A bound above the number of steps to the end leaves the end as it is. -/
theorem Ends.steps {m m' : Machine} {k max : Nat} {r : Except Fault Unit} (h : Ends m k m' r)
    (hk : k < max) : m.steps max = (m', r.map fun _ => k) := by
  induction h generalizing max with
  | stopped h => exact steps_of_not_running h max
  | failed hr h =>
    obtain ⟨max, rfl⟩ := Nat.exists_eq_add_one.mpr hk
    exact steps_succ_of_error hr h max
  | @step m m₁ m' i k r h hrest ih =>
    obtain ⟨max, rfl⟩ := Nat.exists_eq_add_one.mpr (Nat.zero_lt_of_lt hk)
    rw [steps_succ_of_ok h, ih (Nat.lt_of_succ_lt_succ hk)]
    cases r <;> rfl

/-! ## Runs -/

/-- A run up to a limit is as many steps as are left to the limit. -/
theorem runUntil_eq_steps {limit : UInt64} {m : Machine} {max : Nat}
    (h : m.cycles.toNat + max = limit.toNat) :
    m.runUntil limit = ((m.steps max).1, (m.steps max).2.map fun _ => ()) := by
  induction max generalizing m with
  | zero =>
    refine runUntil_of_done fun hc => ?_
    have hlt := UInt64.lt_iff_toNat_lt.mp hc.2
    omega
  | succ max ih =>
    have hlt : m.cycles < limit := by
      rw [UInt64.lt_iff_toNat_lt]
      omega
    rcases m.step_cases with hr | ⟨hr, m₁, f, hs⟩ | ⟨m₁, i, hs⟩
    · rw [runUntil_of_done fun hc => hr (beq_iff_eq.mp hc.1), steps_of_not_running hr]
      rfl
    · rw [runUntil_of_error ⟨beq_iff_eq.mpr hr, hlt⟩ hs, steps_succ_of_error hr hs]
      rfl
    · have hcycles : m₁.cycles.toNat + max = limit.toNat := by
        have hle := limit.toNat_lt
        rw [cycles_of_step_ok hs, UInt64.toNat_add, UInt64.toNat_one]
        omega
      rw [runUntil_of_ok ⟨beq_iff_eq.mpr (attempt_of_step_ok hs).1, hlt⟩ hs, ih hcycles,
        steps_succ_of_ok hs]
      cases (m₁.steps max).2 <;> rfl

/-- A run for a number of cycles is so many steps. -/
theorem runLimited_eq_steps {m : Machine} {max : Nat} (h : m.cycles.toNat + max < UInt64.size) :
    m.runLimited max = ((m.steps max).1, (m.steps max).2.map UInt64.ofNat) := by
  have hmin : min (m.cycles.toNat + max) (UInt64.size - 1) = m.cycles.toNat + max := by omega
  have hlimit : m.cycles.toNat + max = (UInt64.ofNat (m.cycles.toNat + max)).toNat :=
    (UInt64.toNat_ofNat_of_lt' h).symm
  unfold runLimited
  simp only [hmin, runUntil_eq_steps hlimit]
  cases hr : m.steps max with
  | mk m' r =>
    cases r with
    | error f => rfl
    | ok k =>
      show (m', Except.ok (m'.cycles - m.cycles)) = (m', .ok (UInt64.ofNat k))
      rw [(cycles_of_steps_ok hr).2, UInt64.add_comm, UInt64.add_sub_cancel]

/-- A run without a bound is a run for all the cycles that can be counted. -/
theorem run_eq_runLimited (m : Machine) :
    m.run = m.runLimited (UInt64.size - 1 - m.cycles.toNat) := by
  have hlt : m.cycles.toNat < UInt64.size := m.cycles.toNat_lt_size
  have hmin : min (m.cycles.toNat + UInt64.size) (UInt64.size - 1) =
      min (m.cycles.toNat + (UInt64.size - 1 - m.cycles.toNat)) (UInt64.size - 1) := by omega
  rw [run, runLimited, runLimited, hmin]

section Parts

variable {m m' : Machine} {max : Nat}

theorem steps_of_runLimited_ok {x : UInt64} (h : m.cycles.toNat + max < UInt64.size)
    (hx : m.runLimited max = (m', .ok x)) : m.steps max = (m', .ok x.toNat) := by
  rw [runLimited_eq_steps h, Prod.mk.injEq] at hx
  obtain ⟨k, hr, rfl⟩ := map_eq_ok_iff.mp hx.2
  have hsteps : m.steps max = (m', .ok k) := Prod.ext hx.1 hr
  have hle := (cycles_of_steps_ok hsteps).1
  rw [hsteps, UInt64.toNat_ofNat_of_lt' (by omega)]

theorem steps_of_runLimited_error {f : Fault} (h : m.cycles.toNat + max < UInt64.size)
    (hf : m.runLimited max = (m', .error f)) : m.steps max = (m', .error f) := by
  rw [runLimited_eq_steps h, Prod.mk.injEq] at hf
  exact Prod.ext hf.1 (map_eq_error_iff.mp hf.2)

/-- The result of a run, as a number. -/
theorem toNat_runLimited (h : m.cycles.toNat + max < UInt64.size) :
    (m.runLimited max).2.map UInt64.toNat = (m.steps max).2 := by
  cases hr : m.runLimited max with
  | mk m₁ r =>
    cases r with
    | ok x =>
      rw [steps_of_runLimited_ok h hr]
      rfl
    | error f =>
      rw [steps_of_runLimited_error h hr]
      rfl

/-- The cycles that were counted in a run leave room for those that were not. -/
theorem cycles_add_lt {x : UInt64} {a b : Nat} (h : m.cycles.toNat + a + b < UInt64.size)
    (hx : m.runLimited a = (m', .ok x)) : m'.cycles.toNat + b < UInt64.size := by
  obtain ⟨hle, hcycles⟩ := cycles_of_steps_ok (steps_of_runLimited_ok (by omega) hx)
  have hsum : (m.cycles + UInt64.ofNat x.toNat).toNat = m.cycles.toNat + x.toNat := by
    rw [UInt64.ofNat_toNat, UInt64.toNat_add]
    exact Nat.mod_eq_of_lt (Nat.lt_of_le_of_lt (by omega) h)
  rw [hcycles, hsum]
  omega

theorem runLimited_of_ends {k : Nat} {r : Except Fault Unit} (h : Ends m k m' r) (hk : k < max)
    (hmax : m.cycles.toNat + max < UInt64.size) :
    m.runLimited max = (m', r.map fun _ => UInt64.ofNat k) := by
  rw [runLimited_eq_steps hmax, h.steps hk]
  cases r <;> rfl

end Parts

/-- A run whose cycles can be counted is so many steps. A run for `a` cycles and then one for `b`
are a run for `a + b`. If stepping without a bound ends, every run with a bound above the number of
steps ends in the same way. -/
theorem run_in_parts (m : Machine) :
    (∀ max, m.cycles.toNat + max < UInt64.size →
      (m.runLimited max).1 = (m.steps max).1 ∧
        (m.runLimited max).2.map UInt64.toNat = (m.steps max).2) ∧
    (∀ a b m₁, m.cycles.toNat + a + b < UInt64.size →
      (∀ x, m.runLimited a = (m₁, .ok x) →
        (m.runLimited (a + b)).1 = (m₁.runLimited b).1 ∧
          (m.runLimited (a + b)).2.map UInt64.toNat =
            (m₁.runLimited b).2.map fun y => x.toNat + y.toNat) ∧
      ∀ f, m.runLimited a = (m₁, .error f) → m.runLimited (a + b) = (m₁, .error f)) ∧
    ∀ k m' r max, Ends m k m' r → k < max → m.cycles.toNat + max < UInt64.size →
      m.run = (m', r.map fun _ => UInt64.ofNat k) ∧ m.runLimited max = m.run := by
  refine ⟨fun max h => ⟨?_, toNat_runLimited h⟩, fun a b m₁ h => ⟨fun x hx => ?_, fun f hf => ?_⟩,
    fun k m' r max hends hk h => ?_⟩
  · rw [runLimited_eq_steps h]
  · have hab : m.cycles.toNat + (a + b) < UInt64.size := by omega
    have hb := cycles_add_lt h hx
    have hsteps := steps_add_of_ok (steps_of_runLimited_ok (by omega) hx) b
    refine ⟨?_, ?_⟩
    · rw [runLimited_eq_steps hab, runLimited_eq_steps hb, hsteps]
    · rw [toNat_runLimited hab, hsteps, ← toNat_runLimited hb]
      cases (m₁.runLimited b).2 <;> rfl
  · have hab : m.cycles.toNat + (a + b) < UInt64.size := by omega
    rw [runLimited_eq_steps hab,
      steps_add_of_error (steps_of_runLimited_error (by omega) hf) b]
    rfl
  · have hrun : m.runLimited (UInt64.size - 1 - m.cycles.toNat) =
        (m', r.map fun _ => UInt64.ofNat k) := runLimited_of_ends hends (by omega) (by omega)
    rw [run_eq_runLimited, hrun]
    exact ⟨rfl, runLimited_of_ends hends hk h⟩

/-- `CLF`, and then a cell that is no opcode. -/
theorem run_in_parts_fault :
    let m := new ⟨#[0, 99]⟩
    ∃ m₁ m₂ f, m.runLimited 1 = (m₁, .ok 1) ∧ m.runLimited 2 = (m₂, .error f) ∧
      (m₁.runLimited 1).1 = m₂ ∧ m.runLimited (2 + 3) = (m₂, .error f) ∧
      m.run = (m₂, .error f) := by
  intro m
  have hfirst : m.step = (m.step.1, .ok (some .clf)) := Prod.ext rfl (by decide +kernel)
  have hsecond : m.step.1.step = (m.step.1.step.1, .error (.unknownOpcode 99 1)) :=
    Prod.ext rfl (by decide +kernel)
  have hends : Ends m 1 m.step.1.step.1 (.error (.unknownOpcode 99 1)) :=
    .step hfirst (.failed (by decide +kernel) hsecond)
  have hone : m.runLimited 1 = (m.step.1, .ok 1) := by
    rw [runLimited_eq_steps (by decide), steps_succ_of_ok hfirst]
    rfl
  obtain ⟨-, hparts, hbound⟩ := run_in_parts m
  obtain ⟨hrun, htwo⟩ := hbound 1 _ _ 2 hends (by decide) (by decide)
  rw [hrun] at htwo
  have hjoin := ((hparts 1 1 _ (by decide)).1 1 hone).1
  rw [htwo] at hjoin
  exact ⟨_, _, _, hone, htwo, hjoin.symm, (hparts 2 3 _ (by decide)).2 _ htwo, hrun⟩

end CellMachine.Machine
