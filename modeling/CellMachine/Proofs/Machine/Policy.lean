import CellMachine.Proofs.Machine.Invariant
import CellMachine.Proofs.Machine.Lockstep

/-!
# CellMachine.Proofs.Machine.Policy

Machines that fail at a cell without an opcode, beside machines that pass over it.

* `Machine.Lenient` — a machine that fails, and the same one that passes over.
* `Machine.Skipped` — what a step over a cell without an opcode does.
* `Machine.ignore_extends_fault` — the two agree up to the first such cell, and there the one
  passes over it.
-/

namespace CellMachine

namespace Machine

def withPolicy (m : Machine) (p : UnknownOpcode) : Machine :=
  { m with config := { m.config with unknownOpcode := p } }

/-- `m` fails at cells without an opcode, and `n` is `m` but for passing over them. -/
structure Lenient (m n : Machine) : Prop where
  policy : m.config.unknownOpcode = .fault
  eq : n = m.withPolicy .ignore

theorem lockstep_lenient : Lockstep Lenient where
  bare := by
    rintro m _ ⟨-, rfl⟩
    rfl
  apply := by
    rintro m _ e ⟨hp, rfl⟩ -
    refine ⟨by rwa [config_apply], ?_⟩
    cases e <;> rfl
  print := by
    rintro m _ text ⟨hp, rfl⟩
    exact ⟨⟨hp, rfl⟩, rfl⟩

variable {m n : Machine}

theorem Lenient.decoded (h : Lenient m n) (cells : List Word) :
    (∃ w, Exec.decoded m cells = .error (.unknownOpcode w m.pc) ∧
      Exec.decoded n cells = .ok none) ∨
    Exec.decoded n cells = Exec.decoded m cells ∧
      FaultIn Fault.OfInstruction (Exec.decoded m cells) := by
  obtain ⟨hp, rfl⟩ := h
  unfold Exec.decoded
  rw [hp]
  cases Instruction.decode cells with
  | ok i => exact .inr ⟨rfl, .ok _⟩
  | error e =>
    cases e with
    | empty => exact .inr ⟨rfl, .error trivial⟩
    | invalidOpcode w => exact .inl ⟨w, rfl, rfl⟩
    | truncated op available => exact .inr ⟨rfl, .error trivial⟩

/-- A fetch is the same on both sides, but for a cell without an opcode. -/
theorem Lenient.fetch (h : Lenient m n) :
    (∃ inst dest src w,
      Exec.fetch m.advance = (m.fetched inst dest src, .error (.unknownOpcode w m.next)) ∧
      Exec.fetch n.advance = (n.fetched inst dest src, .ok none)) ∨
    ∃ r m₁ n₁, Exec.fetch m.advance = (m₁, r) ∧ Exec.fetch n.advance = (n₁, r) ∧
      Lenient m₁ n₁ ∧ FaultIn Fault.OfInstruction r := by
  obtain ⟨hpolicy, rfl⟩ := h
  by_cases hplace : m.next.IsPlace m.mem.size
  · obtain ⟨⟨p, hlt⟩, -, hp⟩ := Word.exists_place? hplace
    obtain ⟨inst, dest, src, cells, hm, hn⟩ : ∃ inst dest src cells,
        Exec.fetch m.advance = (m.fetched inst dest src,
          Exec.decoded (m.fetched inst dest src) cells) ∧
        Exec.fetch (m.withPolicy .ignore).advance = ((m.withPolicy .ignore).fetched inst dest src,
          Exec.decoded ((m.withPolicy .ignore).fetched inst dest src) cells) :=
      ⟨_, _, _, _, fetch_of_lt hp hlt, fetch_of_lt (m := m.withPolicy .ignore) hp hlt⟩
    have hfetched : Lenient (m.fetched inst dest src)
        ((m.withPolicy .ignore).fetched inst dest src) := ⟨hpolicy, rfl⟩
    rcases hfetched.decoded cells with ⟨w, hfails, hskips⟩ | ⟨hsame, hin⟩
    · rw [hfails] at hm
      rw [hskips] at hn
      exact .inl ⟨inst, dest, src, w, hm, hn⟩
    · rw [hsame] at hn
      exact .inr ⟨_, _, _, hm, hn, hfetched, hin⟩
  · have hm := fetch_of_not_isPlace hplace
    have hn := fetch_of_not_isPlace (m := m.withPolicy .ignore) hplace
    exact .inr ⟨_, _, _, hm, hn, ⟨hpolicy, rfl⟩, .error trivial⟩

/-- An attempt is the same on both sides, but for a cell without an opcode. -/
theorem Lenient.attempt (h : Lenient m n) :
    (∃ inst dest src w,
      Exec.attempt m.advance = (m.fetched inst dest src, .error (.unknownOpcode w m.next)) ∧
      Exec.fetch n.advance = (n.fetched inst dest src, .ok none)) ∨
    ∃ r m₁ n₁, Exec.attempt m.advance = (m₁, r) ∧ Exec.attempt n.advance = (n₁, r) ∧
      Lenient m₁ n₁ ∧ FaultIn Fault.OfInstruction r := by
  have hrest : ∀ i : Option Instruction, Exec.Agrees Lenient Fault.OfInstruction
      (i.elim (return) Exec.execute >>= fun _ => Exec.finish i) := fun i =>
    (Exec.agrees_carryOut lockstep_lenient i).bind fun _ =>
      Exec.agrees_finish lockstep_lenient (fun h => by rw [h.eq]; rfl) i
  rcases h.fetch with ⟨inst, dest, src, w, hm, hn⟩ | ⟨r, m₁, n₁, hm, hn, h₁, hin⟩
  · exact .inl ⟨inst, dest, src, w, Exec.bind_of_error hm _, hn⟩
  · cases r with
    | error f => exact .inr ⟨_, _, _, Exec.bind_of_error hm _, Exec.bind_of_error hn _, h₁,
        .error (hin f rfl)⟩
    | ok i =>
      obtain ⟨r, m₂, n₂, hm₂, hn₂, h₂, hin⟩ := hrest i m₁ n₁ h₁
      exact .inr ⟨r, m₂, n₂, (Exec.bind_of_ok hm _).trans hm₂, (Exec.bind_of_ok hn _).trans hn₂,
        h₂, hin⟩

/-- A step that passed over the cell at `addr`. -/
structure Skipped (m : Machine) (addr : Word) (m' : Machine) : Prop where
  regs : m'.regs = m.regs
  sp : m'.sp = m.sp
  mem : m'.mem = m.mem
  pc : m'.pc = addr
  cycles : m'.cycles = m.cycles + 1
  lastInstr : m'.lastInstr = none
  status : m'.status = .running

/-- A cell without an opcode is passed over, with a trace of the registers if there is one. -/
theorem skipped_of_fetch {inst dest src : Word} (hr : m.status = .running) (hout : m.TakesTrace)
    (hfetch : Exec.fetch m.advance = (m.fetched inst dest src, .ok none)) :
    ∃ m', m.step = (m', .ok none) ∧ m.Skipped m.next m' := by
  obtain ⟨out, hfinish⟩ := finish_of_takesTrace (m := m.fetched inst dest src) hout none
  have hattempt : Exec.attempt m.advance = (_, .ok none) :=
    (Exec.bind_of_ok hfetch _).trans hfinish
  exact ⟨_, step_of_ok hr hattempt, ⟨rfl, rfl, rfl, rfl, rfl, rfl, hr⟩⟩

/-- A step is the same on both sides, but for a cell without an opcode. -/
theorem Lenient.step (h : Lenient m n) :
    (∃ w, m.step.2 = .error (.unknownOpcode w m.next) ∧
      (n.TakesTrace → ∃ n', n.step = (n', .ok none) ∧ n.Skipped m.next n')) ∨
    n.step.2 = m.step.2 ∧ Lenient m.step.1 n.step.1 ∧
      ∀ w a, m.step.2 ≠ .error (.unknownOpcode w a) := by
  have hstatus : n.status = m.status := by rw [h.eq]; rfl
  have hnext : n.next = m.next := by rw [h.eq]; rfl
  by_cases hr : m.status = .running
  · have hr' : n.status = .running := hstatus.trans hr
    rcases h.attempt with ⟨inst, dest, src, w, hm, hn⟩ | ⟨r, m₁, n₁, hm, hn, ⟨hp, rfl⟩, hin⟩
    · refine .inl ⟨w, ?_, fun hout => ?_⟩
      · rw [step_of_error hr hm]
      · rw [← hnext]
        exact skipped_of_fetch hr' hout hn
    · refine .inr ?_
      cases r with
      | ok i =>
        rw [step_of_ok hr hm, step_of_ok hr' hn]
        exact ⟨rfl, ⟨hp, rfl⟩, fun _ _ => nofun⟩
      | error f =>
        rw [step_of_error hr hm, step_of_error hr' hn, hnext]
        refine ⟨rfl, ⟨hp, rfl⟩, ?_⟩
        rintro w a ⟨⟩
        exact hin _ rfl
  · refine .inr ?_
    rw [step_of_not_running hr, step_of_not_running (hstatus ▸ hr), hstatus]
    exact ⟨rfl, h, fun _ _ => nofun⟩

/-! ## Runs -/

theorem accepts_attempt (h : m.out.Accepts) : (Exec.attempt m).1.out.Accepts := by
  have hwithin : Exec.Within (fun m e => m.out.Accepts → (m.apply e).out.Accepts)
      Exec.attempt := by
    refine Exec.within_attempt (fun _ _ _ _ hm => hm) (fun i m e he hm => ?_) fun _ _ hm => hm
    cases e with
    | output out =>
      obtain ⟨-, text, rfl⟩ := he
      exact (hm.write text).1
    | _ => exact hm
  exact (hwithin m).keeps (P := fun m => m.out.Accepts) (fun _ _ hm hkeep => hkeep hm) h

theorem accepts_after (h : m.out.Accepts) (k : Nat) : (m.after k).out.Accepts := by
  induction k with
  | zero => exact h
  | succ k ih =>
    exact step_keeps (P := fun m => m.out.Accepts) (fun _ h => h) (fun _ => accepts_attempt)
      (fun _ _ h => h) (fun _ _ h => h) ih

/-- The relation is kept as long as no cell without an opcode is met. -/
theorem Lenient.after {k : Nat} (h : Lenient m n)
    (hknown : ∀ j < k, ∀ w a, (m.after j).step.2 ≠ .error (.unknownOpcode w a)) :
    Lenient (m.after k) (n.after k) := by
  induction k with
  | zero => exact h
  | succ k ih =>
    have hk := ih fun j hj => hknown j (Nat.lt_succ_of_lt hj)
    rcases hk.step with ⟨w, hw, -⟩ | ⟨-, hnext, -⟩
    · exact absurd hw (hknown k (Nat.lt_succ_self k) w _)
    · exact hnext

/-- A machine that passes over cells without an opcode does as one that fails at them, as long as it
meets none. At the first one the step that would fail does nothing but count a cycle. -/
theorem ignore_extends_fault {k : Nat}
    (hknown : ∀ j < k, ∀ w a,
      ((m.withPolicy .fault).after j).step.2 ≠ .error (.unknownOpcode w a)) :
    let fault := m.withPolicy .fault
    let ignore := m.withPolicy .ignore
    (∀ j < k, (ignore.after j).step.2 = (fault.after j).step.2) ∧
    (∀ j ≤ k, ignore.after j = (fault.after j).withPolicy .ignore) ∧
    ∀ w a, (fault.after k).step.2 = .error (.unknownOpcode w a) → m.out.Accepts →
      ∃ s, (ignore.after k).step = (s, .ok none) ∧ (ignore.after k).Skipped a s ∧
        s.next = a + 1 := by
  intro fault ignore
  have hlenient : ∀ j ≤ k, Lenient (fault.after j) (ignore.after j) := fun j hj =>
    Lenient.after ⟨rfl, rfl⟩ fun i hi => hknown i (Nat.lt_of_lt_of_le hi hj)
  refine ⟨?_, fun j hj => (hlenient j hj).eq, ?_⟩
  · intro j hj
    rcases (hlenient j (Nat.le_of_lt hj)).step with ⟨w, hw, -⟩ | ⟨hresult, -⟩
    · exact absurd hw (hknown j hj w _)
    · exact hresult
  · intro w a hw hout
    have haccepts : (ignore.after k).out.Accepts := accepts_after (m := ignore) hout k
    rcases (hlenient k (Nat.le_refl k)).step with ⟨w', hw', hskip⟩ | ⟨-, -, hnever⟩
    · rw [hw] at hw'
      cases hw'
      obtain ⟨s, hstep, hskipped⟩ := hskip fun _ => haccepts
      refine ⟨s, hstep, hskipped, ?_⟩
      rw [next, hskipped.pc]
    · exact absurd hw (hnever w a)

/-- `CLF`, and a cell without an opcode behind it. -/
theorem ignore_extends_fault_clf :
    let m := new ⟨#[0, 99]⟩
    ((m.withPolicy .fault).after 1).step.2 = .error (.unknownOpcode 99 1) ∧
      ∃ s, ((m.withPolicy .ignore).after 1).step = (s, .ok none) ∧ s.next = 2 := by
  intro m
  have hunknown : ((m.withPolicy .fault).after 1).step.2 = .error (.unknownOpcode 99 1) := by
    decide +kernel
  have hknown : ∀ j < 1, ∀ w a,
      ((m.withPolicy .fault).after j).step.2 ≠ .error (.unknownOpcode w a) := by
    intro j hj w a
    obtain rfl : j = 0 := by omega
    have hclf : ((m.withPolicy .fault).after 0).step.2 = .ok (some .clf) := by decide +kernel
    rw [hclf]
    nofun
  have hout : m.out.Accepts := ⟨fun _ h => absurd h List.not_mem_nil, rfl⟩
  obtain ⟨s, hstep, -, hnext⟩ := (ignore_extends_fault hknown).2.2 _ _ hunknown hout
  exact ⟨hunknown, s, hstep, hnext⟩

end Machine

end CellMachine
