import CellMachine.Debugger.Basic
import CellMachine.Proofs.Machine.Invariant
import CellMachine.Proofs.Machine.Lockstep
import Mathlib.Order.Bounds.Basic

/-!
# CellMachine.Proofs.Debugger

Continuous execution in a debugger takes the steps of its machine, and none past a breakpoint.

* `Machine.Pauses`      — where continuous execution ends.
* `Debugger.ticks`      — so many ticks.
* `Debugger.ticks_follow_steps` — what they leave, and when they have come to an end.
-/

namespace CellMachine

/-- The machine has stopped, or stands before the instruction at a breakpoint. -/
def Machine.Pauses (m : Machine) (breakpoints : List Word) : Prop :=
  m.status ≠ .running ∨ m.next ∈ breakpoints

instance (m : Machine) (breakpoints : List Word) : Decidable (m.Pauses breakpoints) :=
  inferInstanceAs (Decidable (_ ∨ _))

namespace Debugger

variable {d : Debugger}

def ticks (d : Debugger) : Nat → Debugger
  | 0 => d
  | n + 1 => (d.ticks n).tick

/-! ## One step, and one tick -/

/-- The steps of a debugger are those of its machine. -/
theorem exists_step_eq (d : Debugger) :
    ∃ notice, d.step = { d with
      machine := d.machine.step.1, running := d.running && d.machine.step.2.isOk, notice } := by
  by_cases hr : d.machine.status = .running
  · have hrunning : d.machine.isRunning = true := beq_iff_eq.mpr hr
    rw [step, if_pos hrunning]
    rcases d.machine.step with ⟨m, f | _ | i⟩
    · exact ⟨_, by rw [Except.isOk, Except.toBool, Bool.and_false]⟩
    · exact ⟨_, by rw [Except.isOk, Except.toBool, Bool.and_true]⟩
    · exact ⟨_, by rw [Except.isOk, Except.toBool, Bool.and_true]⟩
  · have hrunning : ¬d.machine.isRunning = true := fun h => hr (beq_iff_eq.mp h)
    rw [step, if_neg hrunning, Machine.step_of_not_running hr]
    exact ⟨_, by rw [Except.isOk, Except.toBool, Bool.and_false]⟩

theorem tick_of_not_running (h : d.running = false) : d.tick = d := by
  rw [tick, h]
  rfl

/-- Where continuous execution ends, a tick only notes that it has ended. -/
theorem tick_of_pauses (h : d.machine.Pauses d.breakpoints) :
    d.tick.machine = d.machine ∧ d.tick.running = false := by
  cases hrun : d.running with
  | false =>
    rw [tick_of_not_running hrun]
    exact ⟨rfl, hrun⟩
  | true =>
    by_cases hr : d.machine.status = .running
    · have hmem : d.next ∈ d.breakpoints := h.resolve_left (not_not_intro hr)
      simp [tick, hrun, Machine.isRunning, hr, hmem]
    · simp [tick, hrun, Machine.isRunning, hr]

/-- Anywhere else a tick takes a step, and it goes on unless that fails. -/
theorem tick_of_not_pauses (hrun : d.running = true) (h : ¬d.machine.Pauses d.breakpoints) :
    d.tick.machine = d.machine.step.1 ∧
      (d.tick.running = false → d.tick.machine.status ≠ .running) := by
  rw [Machine.Pauses, not_or, not_not] at h
  obtain ⟨hr, hmem⟩ := h
  have htick : d.tick = d.step := by
    have hmem : d.next ∉ d.breakpoints := hmem
    simp [tick, hrun, Machine.isRunning, hr, hmem]
  obtain ⟨notice, heq⟩ := d.exists_step_eq
  rw [htick, heq, hrun, Bool.true_and]
  refine ⟨rfl, fun hstop => ?_⟩
  cases hs : d.machine.step.2 with
  | ok i =>
    rw [hs] at hstop
    cases hstop
  | error f =>
    have hstep : d.machine.step = (d.machine.step.1, .error f) := Prod.ext rfl hs
    rw [Machine.status_of_step_error hr hstep]
    nofun

@[simp] theorem breakpoints_step (d : Debugger) : d.step.breakpoints = d.breakpoints := by
  obtain ⟨notice, heq⟩ := d.exists_step_eq
  rw [heq]

@[simp] theorem breakpoints_tick (d : Debugger) : d.tick.breakpoints = d.breakpoints := by
  unfold tick
  split
  · rfl
  split
  · rfl
  split
  · rfl
  · exact d.breakpoints_step

/-! ## Many ticks -/

theorem breakpoints_ticks (d : Debugger) (n : Nat) : (d.ticks n).breakpoints = d.breakpoints := by
  induction n with
  | zero => rfl
  | succ n ih => rw [ticks, breakpoints_tick, ih]

theorem ticks_of_not_running {n : Nat} (h : (d.ticks n).running = false) (j : Nat) :
    d.ticks (n + j) = d.ticks n := by
  induction j with
  | zero => rfl
  | succ j ih => rw [← Nat.add_assoc, ticks, ih, tick_of_not_running h]

/-- After `n` ticks the machine has taken `k` steps, up to the first end of continuous execution. -/
structure Took (d : Debugger) (n k : Nat) : Prop where
  least : IsLeast {i | i = n ∨ (d.machine.after i).Pauses d.breakpoints} k
  machine : (d.ticks n).machine = d.machine.after k
  ended : (d.ticks n).running = false → (d.machine.after k).Pauses d.breakpoints
  running : (d.ticks n).running = true → k = n

theorem took_zero (h : d.running = true) : d.Took 0 0 where
  least := ⟨.inl rfl, fun _ _ => Nat.zero_le _⟩
  machine := rfl
  ended := fun hstop => absurd (h.symm.trans hstop) nofun
  running := fun _ => rfl

/-- Where continuous execution has ended, a further tick takes no step. -/
theorem Took.stay {n k : Nat} (h : d.Took n k) (hpauses : (d.machine.after k).Pauses d.breakpoints) :
    d.Took (n + 1) k where
  least := by
    refine ⟨.inr hpauses, ?_⟩
    rintro i (rfl | hi)
    · exact Nat.le_succ_of_le (h.least.2 (.inl rfl))
    · exact h.least.2 (.inr hi)
  machine := by
    rw [← h.machine, ← d.breakpoints_ticks n] at hpauses
    exact (tick_of_pauses hpauses).1.trans h.machine
  ended := fun _ => hpauses
  running := by
    rw [← h.machine, ← d.breakpoints_ticks n] at hpauses
    exact fun hrun => absurd ((tick_of_pauses hpauses).2.symm.trans hrun) nofun

/-- Where it has not, a tick takes a step. -/
theorem Took.move {n k : Nat} (h : d.Took n k)
    (hpauses : ¬(d.machine.after k).Pauses d.breakpoints) : d.Took (n + 1) (n + 1) := by
  have hrun : (d.ticks n).running = true :=
    (Bool.eq_false_or_eq_true _).resolve_right fun hstop => hpauses (h.ended hstop)
  obtain rfl := h.running hrun
  obtain ⟨hmachine, hended⟩ : (d.ticks (k + 1)).machine = d.machine.after (k + 1) ∧
      ((d.ticks (k + 1)).running = false →
        (d.machine.after (k + 1)).Pauses d.breakpoints) := by
    have hpauses' := hpauses
    rw [← h.machine, ← d.breakpoints_ticks k] at hpauses'
    obtain ⟨hstep, hstop⟩ := tick_of_not_pauses hrun hpauses'
    rw [h.machine] at hstep
    refine ⟨hstep, fun hrun' => .inl ?_⟩
    rw [Machine.after, ← hstep]
    exact hstop hrun'
  refine ⟨⟨.inl rfl, ?_⟩, hmachine, hended, fun _ => rfl⟩
  rintro i (rfl | hi)
  · exact Nat.le_refl _
  · refine Nat.lt_of_le_of_ne (h.least.2 (.inr hi)) ?_
    rintro rfl
    exact hpauses hi

theorem exists_took (h : d.running = true) (n : Nat) : ∃ k, d.Took n k := by
  induction n with
  | zero => exact ⟨0, took_zero h⟩
  | succ n ih =>
    obtain ⟨k, hk⟩ := ih
    by_cases hpauses : (d.machine.after k).Pauses d.breakpoints
    · exact ⟨k, hk.stay hpauses⟩
    · exact ⟨n + 1, hk.move hpauses⟩

/-- So many ticks leave the machine, its memory and its output as so many steps do, or fewer where
it has stopped or stands before a breakpoint after these. Then continuous execution is over, and
further ticks change nothing. No tick executes the instruction at a breakpoint. -/
theorem ticks_follow_steps (h : d.running = true) (n : Nat) :
    ∃ k, IsLeast {i | i = n ∨ (d.machine.after i).Pauses d.breakpoints} k ∧
      (d.ticks n).machine = d.machine.after k ∧
      (k < n → (d.ticks n).running = false) ∧
      ((d.ticks n).running = false → ∀ j, d.ticks (n + j) = d.ticks n) ∧
      ((d.ticks n).next ∈ d.breakpoints → (d.ticks (n + 1)).machine = (d.ticks n).machine) := by
  obtain ⟨k, hk⟩ := exists_took h n
  refine ⟨k, hk.least, hk.machine, fun hlt => ?_, ticks_of_not_running, fun hnext => ?_⟩
  · refine (Bool.eq_false_or_eq_true _).resolve_left fun hrun => ?_
    exact Nat.ne_of_lt hlt (hk.running hrun)
  · refine (tick_of_pauses (.inr ?_)).1
    rwa [breakpoints_ticks]

/-- `INC 1` twice and `HLT`, with a breakpoint at the second `INC`. -/
theorem ticks_follow_steps_breakpoint :
    let d : Debugger :=
      { new 8 #[9, 1, 9, 1, 31] {} with breakpoints := [2], running := true }
    (d.ticks 5).machine = d.machine.after 1 ∧ (d.ticks 5).running = false ∧
      (d.ticks 5).machine.regs.word 1 = 1 := by
  intro d
  obtain ⟨k, hk, hmachine, hstop, -⟩ := ticks_follow_steps (d := d) rfl 5
  have hone : IsLeast {i | i = 5 ∨ (d.machine.after i).Pauses d.breakpoints} 1 := by
    have hpauses : (d.machine.after 1).Pauses d.breakpoints ∧
        ¬(d.machine.after 0).Pauses d.breakpoints := by decide +kernel
    refine ⟨.inr hpauses.1, ?_⟩
    rintro i (rfl | hi)
    · decide
    · refine Nat.one_le_iff_ne_zero.mpr ?_
      rintro rfl
      exact hpauses.2 hi
  obtain rfl := hk.unique hone
  refine ⟨hmachine, hstop (by decide), ?_⟩
  rw [hmachine]
  decide +kernel

end Debugger

end CellMachine
