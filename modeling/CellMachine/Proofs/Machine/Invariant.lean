import CellMachine.Machine.Run
import CellMachine.Proofs.Word

/-!
# CellMachine.Proofs.Machine.Invariant

What holds of every machine that is reached from a new one.

* `Machine.InBounds` — the size of memory, the bounds of the stack pointer, the flags.
* `Machine.Sound`    — these, and the run state against the last instruction and the cycle counter.
* `Machine.Reached`  — machines reached by steps, runs, restarts, settings and suspensions.
* `Machine.sound_of_reached` — every machine that is reached is sound, and stays put once stopped.
-/

namespace CellMachine

def Flags.Exclusive (f : Flags) : Prop :=
  ¬(f.zero = true ∧ f.ltz = true) ∧ ¬(f.zero = true ∧ f.gtz = true) ∧
    ¬(f.ltz = true ∧ f.gtz = true)

theorem Flags.exclusive_clear : Flags.Exclusive {} := by
  refine ⟨?_, ?_, ?_⟩ <;> decide

theorem Flags.exclusive_ofOrdering (o : Ordering) : (Flags.ofOrdering o).Exclusive := by
  cases o <;> refine ⟨?_, ?_, ?_⟩ <;> decide

namespace Machine

/-! ## Bounds -/

/-- Memory has `n` cells, the stack pointer is on one of them or behind the last, and at most one
flag is set. -/
structure InBounds (n : Nat) (m : Machine) : Prop where
  size : m.mem.size = n
  sp_nonneg : 0 ≤ m.sp.toInt
  sp_le : m.sp.toInt ≤ n
  flags : m.regs.flags.Exclusive

/-- No effect of an instruction leads out of the bounds. -/
theorem InBounds.apply {n : Nat} {m : Machine} {i : Instruction} {e : Effect} (hn : Word.Covers n)
    (h : InBounds n m) (he : i.Permits m e) : InBounds n (m.apply e) := by
  cases e with
  | flags f =>
    refine ⟨h.size, h.sp_nonneg, h.sp_le, ?_⟩
    rcases he with rfl | ⟨o, rfl⟩
    · exact Flags.exclusive_clear
    · exact Flags.exclusive_ofOrdering o
  | stack sp =>
    have hnonneg := h.sp_nonneg
    have hle := h.sp_le
    have hsize := h.size
    refine ⟨h.size, ?_, ?_, h.flags⟩
    · show 0 ≤ sp.toInt
      rcases he with ⟨hpos, rfl⟩ | ⟨-, hlt, rfl⟩
      · rw [Word.toInt_sub_one (by omega)]
        omega
      · rw [Word.toInt_add_one hn (by omega)]
        omega
    · show sp.toInt ≤ n
      rcases he with ⟨hpos, rfl⟩ | ⟨-, hlt, rfl⟩
      · rw [Word.toInt_sub_one (by omega)]
        omega
      · rw [Word.toInt_add_one hn (by omega)]
        omega
  | store p w => exact ⟨(m.mem.size_put p w).trans h.size, h.sp_nonneg, h.sp_le, h.flags⟩
  | register i w => exact ⟨h.size, h.sp_nonneg, h.sp_le, h.flags⟩
  | decimal i t => exact ⟨h.size, h.sp_nonneg, h.sp_le, h.flags⟩
  | output out => exact ⟨h.size, h.sp_nonneg, h.sp_le, h.flags⟩
  | halt => exact ⟨h.size, h.sp_nonneg, h.sp_le, h.flags⟩
  | latch inst dest src => exact he.elim
  | jump pc => exact he.elim

theorem InBounds.attempt {n : Nat} {m : Machine} (hn : Word.Covers n) (h : InBounds n m) :
    InBounds n (Exec.attempt m).1 := by
  -- Any effect of a step will do here, as long as it keeps the bounds.
  have hwithin : Exec.Within (fun m e => InBounds n m → InBounds n (m.apply e)) Exec.attempt :=
    Exec.within_attempt (fun _ _ _ _ hm => ⟨hm.size, hm.sp_nonneg, hm.sp_le, hm.flags⟩)
      (fun _ _ _ he hm => hm.apply hn he)
      (fun _ _ hm => ⟨hm.size, hm.sp_nonneg, hm.sp_le, hm.flags⟩)
  exact (hwithin m).keeps (fun _ _ hm hkeep => hkeep hm) h

/-! ## The run state -/

@[simp] theorem lastInstr_apply (m : Machine) (e : Effect) :
    (m.apply e).lastInstr = m.lastInstr := by cases e <;> rfl

theorem lastInstr_attempt (m : Machine) : (Exec.attempt m).1.lastInstr = m.lastInstr := by
  have h : Exec.Within (fun _ _ => True) Exec.attempt :=
    Exec.within_attempt (fun _ _ _ _ => trivial) (fun _ _ _ _ => trivial) fun _ _ => trivial
  exact (h m).keeps (fun m' e hm _ => (lastInstr_apply m' e).trans hm) rfl

theorem status_apply {m : Machine} {e : Effect} (h : e ≠ .halt) :
    (m.apply e).status = m.status := by
  cases e with
  | halt => exact absurd rfl h
  | _ => rfl

/-- A computation without a halt keeps the run state. -/
theorem status_of_within {α : Type} {x : Exec α} (h : Exec.Within (fun _ e => e ≠ .halt) x)
    (m : Machine) : (x m).1.status = m.status :=
  (h m).keeps (P := fun m' => m'.status = m.status)
    (fun _ _ hm he => (status_apply he).trans hm) rfl

theorem status_act (i : Instruction) {m m' : Machine} (h : Exec.act i m = (m', .ok ())) :
    m'.status = if i = .hlt then .halted else m.status := by
  by_cases hi : i = .hlt
  · subst hi
    cases h
    rfl
  · have hwithin : Exec.Within (fun _ e => e ≠ .halt) (Exec.act i) := by
      refine (Exec.within_act i).mono fun m e he heq => ?_
      rw [heq] at he
      exact hi he
    have hstatus := status_of_within hwithin m
    rw [h] at hstatus
    rw [if_neg hi]
    exact hstatus

/-- An attempt that does not fail halts the machine if it carries out `HLT`. -/
theorem status_attempt {m m' : Machine} {i : Option Instruction}
    (h : Exec.attempt m = (m', .ok i)) :
    m'.status = if i = some .hlt then .halted else m.status := by
  obtain ⟨m₁, j, hfetch, h⟩ := Exec.bind_eq_ok h
  obtain ⟨m₂, _, hexec, h⟩ := Exec.bind_eq_ok h
  obtain ⟨_, _, ⟨⟩, h⟩ := Exec.bind_eq_ok h
  -- Neither the fetch (`m₁`) nor the trace after the instruction (`m₂`) halts.
  have h₁ : m₁.status = m.status := by
    have hwithin : Exec.Within (fun _ e => e ≠ .halt) Exec.fetch :=
      Exec.within_fetch fun _ _ _ _ => nofun
    have hstatus := status_of_within hwithin m
    rwa [hfetch] at hstatus
  have h₂ : m₂.status = if j = some .hlt then .halted else m.status := by
    cases j with
    | none =>
      cases hexec
      exact h₁
    | some j =>
      obtain ⟨m₃, _, hact, hjump⟩ := Exec.bind_eq_ok hexec
      cases hjump
      simp only [Option.some.injEq, ← h₁]
      show m₃.status = _
      exact status_act j hact
  have h₃ : m'.status = m₂.status ∧ i = j := by
    split at h
    · obtain ⟨m₃, _, htrace, h⟩ := Exec.bind_eq_ok h
      cases h
      have hwithin : Exec.Within (fun _ e => e ≠ .halt) Exec.trace :=
        Exec.within_trace fun _ _ => nofun
      have hstatus := status_of_within hwithin m₂
      rw [htrace] at hstatus
      exact ⟨hstatus, rfl⟩
    · cases h
      exact ⟨rfl, rfl⟩
  rw [h₃.1, h₃.2, h₂]

/-! ## Steps and runs -/

/-- The bounds, the run state against the last instruction, and the cycle counter after `k` steps
that did not fail. -/
structure Sound (n k : Nat) (m : Machine) : Prop extends InBounds n m where
  halted : m.status = .halted ↔ m.lastInstr = some .hlt
  cycles : m.cycles = UInt64.ofNat k

/-- What an attempt keeps, and the bookkeeping around it, is kept by a step, whether it fails or
not. -/
theorem step_keeps {P : Machine → Prop} (hadvance : ∀ m, P m → P m.advance)
    (hattempt : ∀ m, P m → P (Exec.attempt m).1) (hcompleted : ∀ m i, P m → P (m.completed i))
    (hfaulted : ∀ m addr, P m → P (m.faulted addr)) {m : Machine} (h : P m) : P m.step.1 := by
  by_cases hr : m.status = .running
  · have hkept := hattempt _ (hadvance m h)
    cases ha : Exec.attempt m.advance with
    | mk m₁ r =>
      rw [ha] at hkept
      cases r with
      | ok i =>
        rw [step_of_ok hr ha]
        exact hcompleted _ i hkept
      | error f =>
        rw [step_of_error hr ha]
        exact hfaulted _ _ hkept
  · rw [step_of_not_running hr]
    exact h

theorem InBounds.step {n : Nat} {m : Machine} (hn : Word.Covers n) (h : InBounds n m) :
    InBounds n m.step.1 :=
  step_keeps (fun _ h => ⟨h.size, h.sp_nonneg, h.sp_le, h.flags⟩) (fun _ => InBounds.attempt hn)
    (fun _ _ h => ⟨h.size, h.sp_nonneg, h.sp_le, h.flags⟩)
    (fun _ _ h => ⟨h.size, h.sp_nonneg, h.sp_le, h.flags⟩) h

theorem Sound.step_ok {n k : Nat} {m m' : Machine} {i : Option Instruction} (hn : Word.Covers n)
    (h : Sound n k m) (hs : m.step = (m', .ok i)) : Sound n (k + 1) m' := by
  have hbounds := h.toInBounds.step hn
  rw [hs] at hbounds
  refine ⟨hbounds, ?_, ?_⟩
  · obtain ⟨hr, m₁, ha, rfl⟩ := attempt_of_step_ok hs
    have hstatus := status_attempt ha
    show m₁.status = .halted ↔ i = some .hlt
    rw [hstatus]
    split
    · exact ⟨fun _ => ‹_›, fun _ => rfl⟩
    · refine ⟨fun hhalted => ?_, fun hi => absurd hi ‹_›⟩
      rw [show m.advance.status = .running from hr] at hhalted
      cases hhalted
  · rw [cycles_of_step_ok hs, h.cycles, UInt64.ofNat_add]
    rfl

/-- A step that fails, also one of a machine that does not run. -/
theorem Sound.step_error {n k : Nat} {m m' : Machine} {f : Fault} (hn : Word.Covers n)
    (h : Sound n k m) (hs : m.step = (m', .error f)) : Sound n k m' := by
  have hbounds := h.toInBounds.step hn
  rw [hs] at hbounds
  by_cases hr : m.status = .running
  · cases ha : Exec.attempt m.advance with
    | mk m₁ r =>
      have hlast := lastInstr_attempt m.advance
      have hcycles := cycles_attempt m.advance
      rw [ha] at hlast hcycles
      cases r with
      | ok i =>
        rw [step_of_ok hr ha] at hs
        cases hs
      | error g =>
        rw [step_of_error hr ha] at hs
        cases hs
        -- A machine that ran had not halted, so the last instruction is not `HLT`.
        refine ⟨hbounds, ⟨nofun, fun hlt => ?_⟩, hcycles.trans h.cycles⟩
        have hhalted := h.halted.mpr (hlast.symm.trans hlt)
        rw [hr] at hhalted
        cases hhalted
  · rw [step_of_not_running hr] at hs
    cases hs
    exact h

/-- The number of steps of a run up to a limit that do not fail. -/
def stepsUntil (limit : UInt64) (m : Machine) : Nat :=
  if m.isRunning ∧ m.cycles < limit then
    match _hs : m.step with
    | (m', .ok _) => stepsUntil limit m' + 1
    | (_, .error _) => 0
  else 0
termination_by limit.toNat - m.cycles.toNat
decreasing_by
  rename_i hc _
  have hlt := UInt64.lt_iff_toNat_lt.mp hc.2
  have hle := limit.toNat_lt
  rw [cycles_of_step_ok _hs, UInt64.toNat_add, UInt64.toNat_one]
  omega

theorem stepsUntil_of_ok {limit : UInt64} {m m' : Machine} {i : Option Instruction}
    (hc : m.isRunning = true ∧ m.cycles < limit) (hs : m.step = (m', .ok i)) :
    m.stepsUntil limit = m'.stepsUntil limit + 1 := by
  rw [stepsUntil, if_pos hc]
  split
  · rename_i h
    rw [hs] at h
    cases h
    rfl
  · rename_i h
    rw [hs] at h
    cases h

theorem stepsUntil_of_error {limit : UInt64} {m m' : Machine} {f : Fault}
    (hs : m.step = (m', .error f)) : m.stepsUntil limit = 0 := by
  rw [stepsUntil]
  split
  · split
    · rename_i h
      rw [hs] at h
      cases h
    · rfl
  · rfl

/-- By induction on the run: each of its steps keeps the machine sound. -/
theorem Sound.runUntil {n k : Nat} {m : Machine} (hn : Word.Covers n) (limit : UInt64)
    (h : Sound n k m) : Sound n (k + m.stepsUntil limit) (m.runUntil limit).1 := by
  fun_induction Machine.runUntil limit m generalizing k with
  | case1 m hc m' i hs ih =>
    rw [stepsUntil_of_ok hc hs, Nat.add_comm _ 1, ← Nat.add_assoc]
    exact ih (h.step_ok hn hs)
  | case2 m hc m' f hs =>
    rw [stepsUntil_of_error hs]
    exact h.step_error hn hs
  | case3 m hc =>
    rw [stepsUntil, if_neg hc]
    exact h

/-- By induction on the run: what a step keeps is kept. -/
theorem runUntil_keeps {P : Machine → Prop} (hstep : ∀ m, P m → P m.step.1) (limit : UInt64)
    {m : Machine} (h : P m) : P (m.runUntil limit).1 := by
  fun_induction Machine.runUntil limit m with
  | case1 m hc m' i hs ih =>
    have hkept := hstep m h
    rw [hs] at hkept
    exact ih hkept
  | case2 m hc m' f hs =>
    have hkept := hstep m h
    rw [hs] at hkept
    exact hkept
  | case3 m hc => exact h

theorem status_of_step_error {m m' : Machine} {f : Fault} (hr : m.status = .running)
    (h : m.step = (m', .error f)) : m'.status = .faulted := by
  cases ha : Exec.attempt m.advance with
  | mk m₁ r =>
    cases r with
    | ok i =>
      rw [step_of_ok hr ha] at h
      cases h
    | error g =>
      rw [step_of_error hr ha] at h
      cases h
      rfl

/-- A run fails in a step of a machine that ran. -/
theorem status_of_runUntil_error {limit : UInt64} {m m' : Machine} {f : Fault}
    (h : m.runUntil limit = (m', .error f)) : m'.status = .faulted := by
  fun_induction Machine.runUntil limit m with
  | case1 m hc m₁ i hs ih => exact ih h
  | case2 m hc m₁ g hs =>
    cases h
    exact status_of_step_error (beq_iff_eq.mp hc.1) hs
  | case3 m hc => cases h

theorem status_of_runLimited_error {m m' : Machine} {max : Nat} {f : Fault}
    (h : m.runLimited max = (m', .error f)) : m'.status = .faulted := by
  simp only [runLimited] at h
  split at h
  · cases h
  · rename_i hrun
    cases h
    exact status_of_runUntil_error hrun

theorem runLimited_fst (max : Nat) (m : Machine) :
    (m.runLimited max).1 =
      (m.runUntil (UInt64.ofNat (min (m.cycles.toNat + max) (UInt64.size - 1)))).1 := by
  unfold runLimited
  simp only
  split
  · rename_i h
    rw [h]
  · rename_i h
    rw [h]

theorem runLimited_of_not_running {m : Machine} (h : m.status ≠ .running) (max : Nat) :
    m.runLimited max = (m, .ok 0) := by
  have hrun : m.isRunning = false := beq_eq_false_iff_ne.mpr h
  unfold runLimited Machine.runUntil
  simp only [hrun, Bool.false_eq_true, false_and, if_false, UInt64.sub_self]

/-! ## What is reached -/

/-- What is done with a machine from outside. -/
inductive Operation where
  | step
  | run (max : Nat)
  | reset
  | reload (image : Array Word)
  | setDebug (debug : Bool)
  /-- Keep the processor, and go on from it over the same memory with other settings and another
  sink. -/
  | resume (config : Config) (out : Sink)

namespace Operation

def apply (m : Machine) : Operation → Machine
  | .step => m.step.1
  | .run max => (m.runLimited max).1
  | .reset => m.reset
  | .reload image => (m.reload image).1
  | .setDebug debug => m.setDebug debug
  | .resume config out => .resume m.mem m.toCore config out

/-- Whether an operation starts the processor again. -/
def restarts (m : Machine) : Operation → Bool
  | .reset => true
  | .reload image => (m.reload image).2.isOk
  | _ => false

/-- The number of steps in an operation that do not fail. -/
def successes (m : Machine) : Operation → Nat
  | .step => if m.step.2.isOk then 1 else 0
  | .run max => m.stepsUntil (UInt64.ofNat (min (m.cycles.toNat + max) (UInt64.size - 1)))
  | _ => 0

end Operation

/-- `m` is reached from `m₀` by operations, and the steps since the last restart that did not fail
are `k`. -/
inductive Reached (m₀ : Machine) : Machine → Nat → Prop where
  | start : Reached m₀ m₀ 0
  | operation {m : Machine} {k : Nat} (op : Operation) (h : Reached m₀ m k) :
      Reached m₀ (op.apply m) (if op.restarts m then 0 else k + op.successes m)

theorem reload_of_ok {m : Machine} {image : Array Word} {mem : Memory}
    (h : m.mem.clear.load 0 image = .ok mem) :
    m.reload image = ({ m with mem }.reset, .ok ()) := by
  simp only [reload, h]

theorem reload_of_error {m : Machine} {image : Array Word} {e : MemoryError}
    (h : m.mem.clear.load 0 image = .error e) :
    m.reload image = ({ m with mem := m.mem.clear }, .error e) := by
  simp only [reload, h]

theorem sound_of_initial {n : Nat} {m : Machine} (hpos : 1 ≤ n) (hn : Word.Covers n)
    (hsize : m.mem.size = n) (hcore : m.toCore = .initial n) : Sound n 0 m := by
  have hsp : m.sp.toInt = (n : Int) - 1 := by
    rw [show m.sp = Int64.ofNat n - 1 from congrArg Core.sp hcore, Word.toInt_sub_one] <;>
      rw [Word.toInt_ofNat hn]
    omega
  have hstatus : m.status = .running := congrArg Core.status hcore
  have hlast : m.lastInstr = none := congrArg Core.lastInstr hcore
  refine ⟨⟨hsize, by omega, by omega, ?_⟩, ?_, congrArg Core.cycles hcore⟩
  · rw [show m.regs = {} from congrArg Core.regs hcore]
    exact Flags.exclusive_clear
  · rw [hstatus, hlast]
    exact ⟨nofun, nofun⟩

theorem Sound.operation {n k : Nat} {m : Machine} (hpos : 1 ≤ n) (hn : Word.Covers n)
    (h : Sound n k m) (op : Operation) :
    Sound n (if op.restarts m then 0 else k + op.successes m) (op.apply m) := by
  cases op with
  | step =>
    show Sound n (k + if m.step.2.isOk then 1 else 0) m.step.1
    cases hs : m.step with
    | mk m' r =>
      cases r with
      | ok i => exact h.step_ok hn hs
      | error f => exact h.step_error hn hs
  | run max =>
    show Sound n (k + _) (m.runLimited max).1
    rw [runLimited_fst]
    exact h.runUntil hn _
  | reset =>
    exact sound_of_initial hpos hn h.size (congrArg Core.initial h.size)
  | reload image =>
    show Sound n (if (m.reload image).2.isOk then 0 else k) (m.reload image).1
    cases hl : m.mem.clear.load 0 image with
    | ok mem =>
      have hsize : mem.size = n := by
        rw [Memory.size_of_load hl (Nat.zero_le _), Memory.size_clear, h.size]
      rw [reload_of_ok hl]
      exact sound_of_initial hpos hn hsize (congrArg Core.initial hsize)
    | error e =>
      rw [reload_of_error hl]
      exact ⟨⟨(Memory.size_clear _).trans h.size, h.sp_nonneg, h.sp_le, h.flags⟩, h.halted,
        h.cycles⟩
  | setDebug debug => exact ⟨⟨h.size, h.sp_nonneg, h.sp_le, h.flags⟩, h.halted, h.cycles⟩
  | resume config out => exact ⟨⟨h.size, h.sp_nonneg, h.sp_le, h.flags⟩, h.halted, h.cycles⟩

theorem Reached.sound {mem : Memory} {config : Config} {out : Sink} {m : Machine} {k : Nat}
    (hpos : 1 ≤ mem.size) (hn : Word.Covers mem.size) (h : Reached (new mem config out) m k) :
    Sound mem.size k m := by
  induction h with
  | start => exact sound_of_initial hpos hn rfl rfl
  | operation op _ ih => exact ih.operation hpos hn op

/-- A machine that does not run is left as it is by everything but a restart. -/
theorem toCore_apply_of_not_running {m : Machine} (h : m.status ≠ .running) {op : Operation}
    (hop : op.restarts m = false) : (op.apply m).toCore = m.toCore := by
  cases op with
  | step => exact congrArg (·.1.toCore) (step_of_not_running h)
  | run max => exact congrArg (·.1.toCore) (runLimited_of_not_running h max)
  | reset => cases hop
  | reload image =>
    cases hl : m.mem.clear.load 0 image with
    | ok mem =>
      rw [Operation.restarts, reload_of_ok hl] at hop
      cases hop
    | error e => rw [Operation.apply, reload_of_error hl]
  | setDebug debug => rfl
  | resume config out => rfl

/-- Every machine that is reached from a new one over one or more cells is sound; once it has
stopped, steps and runs change nothing, and nothing but a restart changes the processor. -/
theorem sound_of_reached {mem : Memory} {config : Config} {out : Sink} {m : Machine} {k : Nat}
    (hpos : 1 ≤ mem.size) (hn : Word.Covers mem.size) (h : Reached (new mem config out) m k) :
    m.mem.size = mem.size ∧ 0 ≤ m.sp.toInt ∧ m.sp.toInt ≤ mem.size ∧ m.regs.flags.Exclusive ∧
      (m.status = .halted ↔ m.lastInstr = some .hlt) ∧
      (k < UInt64.size → m.cycles.toNat = k) ∧
      (m.status ≠ .running →
        m.step = (m, .error (.notRunning m.status)) ∧ (∀ max, m.runLimited max = (m, .ok 0)) ∧
          ∀ op : Operation, op.restarts m = false → (op.apply m).toCore = m.toCore) := by
  have hsound := h.sound hpos hn
  refine ⟨hsound.size, hsound.sp_nonneg, hsound.sp_le, hsound.flags, hsound.halted, ?_, ?_⟩
  · intro hk
    rw [hsound.cycles]
    exact UInt64.toNat_ofNat_of_lt' hk
  · intro hstopped
    exact ⟨step_of_not_running hstopped, runLimited_of_not_running hstopped,
      fun op hop => toCore_apply_of_not_running hstopped hop⟩

/-- One step over a memory of one cell that holds `HLT`. -/
theorem sound_of_reached_halt :
    Reached (new ⟨#[31]⟩) (new ⟨#[31]⟩).step.1 1 ∧ (new ⟨#[31]⟩).step.1.status = .halted ∧
      (new ⟨#[31]⟩).step.1.lastInstr = some .hlt ∧ (new ⟨#[31]⟩).step.1.cycles.toNat = 1 ∧
      ∀ max, (new ⟨#[31]⟩).step.1.runLimited max = ((new ⟨#[31]⟩).step.1, .ok 0) := by
  have hreached : Reached (new ⟨#[31]⟩) (new ⟨#[31]⟩).step.1 1 := .operation .step .start
  have hstatus : (new ⟨#[31]⟩).step.1.status = .halted := by decide
  have hstopped : (new ⟨#[31]⟩).step.1.status ≠ .running := by decide
  obtain ⟨-, -, -, -, hlast, hcycles, hstay⟩ :=
    sound_of_reached (by decide) (by decide) hreached
  exact ⟨hreached, hstatus, hlast.mp hstatus, hcycles (by decide), (hstay hstopped).2.1⟩

end Machine

end CellMachine
