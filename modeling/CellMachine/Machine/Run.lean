import CellMachine.Machine.Within

/-!
# CellMachine.Machine.Run

Runs of steps.

* `Machine.runUntil`   — steps until the machine stops, a step fails or the cycle counter is at a
  limit.
* `Machine.runLimited` — the same for a number of cycles to come.

No effect touches the cycle counter, and a step that does not fail counts one cycle; so a run ends.
-/

namespace CellMachine.Machine

@[simp] theorem cycles_apply (m : Machine) (e : Effect) : (m.apply e).cycles = m.cycles := by
  cases e <;> rfl

theorem cycles_attempt (m : Machine) : (Exec.attempt m).1.cycles = m.cycles := by
  have h : Exec.Within (fun _ _ => True) Exec.attempt :=
    Exec.within_attempt (fun _ _ _ _ => trivial) (fun _ _ _ _ => trivial) fun _ _ => trivial
  exact (h m).keeps (fun m' e hm _ => (cycles_apply m' e).trans hm) rfl

theorem cycles_of_step_ok {m m' : Machine} {i : Option Instruction} (h : m.step = (m', .ok i)) :
    m'.cycles = m.cycles + 1 := by
  obtain ⟨_, m₁, ha, rfl⟩ := attempt_of_step_ok h
  have hc := cycles_attempt m.advance
  rw [ha] at hc
  exact congrArg (· + 1) hc

/-- Steps as long as the machine runs and its cycle counter is below `limit`, and no step fails. -/
def runUntil (limit : UInt64) (m : Machine) : Machine × Except Fault Unit :=
  if m.isRunning ∧ m.cycles < limit then
    match _hs : m.step with
    | (m', .ok _) => runUntil limit m'
    | (m', .error f) => (m', .error f)
  else (m, .ok ())
termination_by limit.toNat - m.cycles.toNat
decreasing_by
  rename_i hc _
  have hlt := UInt64.lt_iff_toNat_lt.mp hc.2
  have hle := limit.toNat_lt
  rw [cycles_of_step_ok _hs, UInt64.toNat_add, UInt64.toNat_one]
  omega

section RunUntil

variable {limit : UInt64} {m m' : Machine}

theorem runUntil_of_ok {i : Option Instruction} (hc : m.isRunning = true ∧ m.cycles < limit)
    (hs : m.step = (m', .ok i)) : m.runUntil limit = m'.runUntil limit := by
  rw [runUntil, if_pos hc]
  split
  · rename_i h
    rw [hs] at h
    cases h
    rfl
  · rename_i h
    rw [hs] at h
    cases h

theorem runUntil_of_error {f : Fault} (hc : m.isRunning = true ∧ m.cycles < limit)
    (hs : m.step = (m', .error f)) : m.runUntil limit = (m', .error f) := by
  rw [runUntil, if_pos hc]
  split
  · rename_i h
    rw [hs] at h
    cases h
  · rename_i h
    rw [hs] at h
    cases h
    rfl

theorem runUntil_of_done (h : ¬(m.isRunning = true ∧ m.cycles < limit)) :
    m.runUntil limit = (m, .ok ()) := by
  rw [runUntil, if_neg h]

end RunUntil

/-- Steps until the machine stops, a step fails, or `max` cycles are spent; the cycle counter does
not pass its largest value. The result is the number of cycles. -/
def runLimited (max : Nat) (m : Machine) : Machine × Except Fault UInt64 :=
  let start := m.cycles
  match m.runUntil (UInt64.ofNat (min (start.toNat + max) (UInt64.size - 1))) with
  | (m, .ok ()) => (m, .ok (m.cycles - start))
  | (m, .error f) => (m, .error f)

/-- Steps until the machine stops or a step fails. The limit is one that the cycle counter does not
reach. A program without end has no result; for it the answer is `.ok` with the counter at its
largest value and a machine that still runs. -/
def run (m : Machine) : Machine × Except Fault UInt64 := m.runLimited UInt64.size

end CellMachine.Machine
