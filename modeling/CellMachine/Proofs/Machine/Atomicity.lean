import CellMachine.Machine.Within
import CellMachine.Proofs.Machine.Faults

/-!
# CellMachine.Proofs.Machine.Atomicity

An instruction that fails has changed nothing, the printing of digits apart.

* `Machine.Kept` — a machine as it was, but for the cells fetched last and the answers that its sink
  has given.
* `Exec.Atomic`  — a computation that keeps the machine where it fails.
* `Machine.step_error_keeps` — a step that fails stops the machine on the opcode cell, and keeps
  everything else.
-/

namespace CellMachine

/-- `m'` is `m`, but for the cells fetched last and the answers that the sink has given. -/
def Machine.Kept (m m' : Machine) : Prop :=
  ∃ inst dest src answers, m' = { m with inst, dest, src, out := { m.out with answers } }

theorem Machine.Kept.refl (m : Machine) : m.Kept m := ⟨_, _, _, _, rfl⟩

theorem Machine.Kept.trans {m m' m'' : Machine} (h : m.Kept m') (h' : m'.Kept m'') :
    m.Kept m'' := by
  obtain ⟨_, _, _, _, rfl⟩ := h
  obtain ⟨inst, dest, src, answers, rfl⟩ := h'
  exact ⟨inst, dest, src, answers, rfl⟩

/-- A sink that refuses a text has no more text than before. -/
theorem Sink.write_of_refused {out : Sink} {s reason : String}
    (h : (out.write s).2 = some reason) :
    (out.write s).1 = { out with answers := out.answers.tail } := by
  unfold Sink.write at h ⊢
  by_cases hs : s.isEmpty = true
  · rw [if_pos hs] at h
    cases h
  · rw [if_neg hs] at h ⊢
    cases ha : out.answers.headD out.refusal with
    | none =>
      simp only [ha] at h
      cases h
    | some r => rfl

namespace Exec

variable {α β : Type} {m : Machine}

/-- If `x` fails on `m`, it keeps `m`. -/
def Atomic (x : Exec α) (m : Machine) : Prop := ∀ m' f, x m = (m', .error f) → m.Kept m'

/-- No machine makes `x` fail. -/
def Total (x : Exec α) : Prop := ∀ m, ∃ m' a, x m = (m', .ok a)

theorem total_pure (a : α) : Total (pure a : Exec α) := fun m => ⟨m, a, rfl⟩

theorem total_perform (e : Effect) : Total (perform e) := fun m => ⟨m.apply e, (), rfl⟩

theorem Total.bind {x : Exec α} {g : α → Exec β} (hx : Total x) (hg : ∀ a, Total (g a)) :
    Total (x >>= g) := by
  intro m
  obtain ⟨m', a, h⟩ := hx m
  rw [bind_of_ok h]
  exact hg a m'

theorem Total.atomic {x : Exec α} (h : Total x) : Atomic x m := by
  intro m' f hf
  obtain ⟨m'', a, ha⟩ := h m
  rw [ha] at hf
  cases hf

/-! ## Parts of instructions -/

theorem atomic_read (r : Machine → Except Fault α) : Atomic (read r) m := by
  intro m' f h
  rw [read_apply, Prod.mk.injEq] at h
  rw [← h.1]
  exact .refl m

theorem atomic_fail (f : Fault) : Atomic (fail f : Exec α) m := by
  rintro m' _ ⟨⟩
  exact .refl m

/-- What is read changes nothing, so a failure later on goes back to the same machine. -/
theorem atomic_read_bind {r : Machine → Except Fault α} {g : α → Exec β}
    (hg : ∀ a, r m = .ok a → Atomic (g a) m) : Atomic (read r >>= g) m := by
  cases hr : r m with
  | ok a =>
    intro m' f h
    rw [read_bind_of_ok hr] at h
    exact hg a hr m' f h
  | error e =>
    intro m' f h
    rw [bind_of_error (show read r m = (m, .error e) by rw [read_apply, hr])] at h
    cases h
    exact .refl m

/-- After the last check come changes only. -/
theorem Atomic.bind_total {x : Exec α} {g : α → Exec β} (hx : Atomic x m)
    (hg : ∀ a, Total (g a)) : Atomic (x >>= g) m := by
  intro m' f h
  cases hxm : x m with
  | mk m₁ r =>
    cases r with
    | ok a =>
      rw [bind_of_ok hxm] at h
      exact absurd h (by obtain ⟨_, _, ha⟩ := hg a m₁; rw [ha]; nofun)
    | error e =>
      rw [bind_of_error hxm] at h
      cases h
      exact hx m' f hxm

theorem atomic_print (text : String) : Atomic (print text) m := by
  intro m' f h
  unfold print at h
  cases hw : (m.out.write text).2 with
  | none =>
    simp only [hw] at h
    cases h
  | some reason =>
    have hout := Sink.write_of_refused hw
    rw [Prod.mk.injEq] at h
    rw [← h.1]
    exact ⟨_, _, _, _, by rw [hout]; rfl⟩

theorem atomic_setRegister (index w : Word) : Atomic (setRegister index w) m :=
  atomic_read_bind fun _ _ => (total_perform _).atomic

theorem atomic_store (addr w : Word) : Atomic (store addr w) m :=
  atomic_read_bind fun _ _ => (total_perform _).atomic

theorem atomic_storeNumber (x : Binary64) : Atomic (storeNumber x) m :=
  atomic_read_bind fun e _ => (total_perform e).atomic

theorem atomic_push (w : Word) : Atomic (push w) m := by
  intro m' f h
  unfold push at h
  rw [machine_bind] at h
  split at h
  · exact atomic_fail _ m' f h
  · exact (atomic_store _ w).bind_total (fun _ => total_perform _) m' f h

theorem atomic_pop : Atomic pop m := by
  intro m' f h
  unfold pop at h
  rw [machine_bind] at h
  split at h
  · exact atomic_fail _ m' f h
  · exact (atomic_read _).bind_total (fun w => (total_perform _).bind fun _ => total_pure w) m' f h

/-- Where a register was read, another word can be put. -/
theorem total_setRegister {index w : Word} (h : m.register index = .ok w) (w' : Word) :
    Total (setRegister index w') := by
  have hslot : ∃ i, Machine.slot index = .ok i := by
    rw [Machine.register, Registers.get, mapError_map] at h
    obtain ⟨i, hi, -⟩ := map_eq_ok_iff.mp h
    exact ⟨i, hi⟩
  obtain ⟨i, hi⟩ := hslot
  intro m'
  exact ⟨m'.apply (.register i w'), (), read_bind_of_ok (m := m') hi _⟩

/-! ## Instructions -/

theorem atomic_compare (dest src : Word) : Atomic (compare dest src) m := by
  intro m' f h
  unfold compare at h
  rw [machine_bind] at h
  split at h
  · exact (atomic_read _).bind_total (fun _ => total_perform _) m' f h
  · refine atomic_read_bind (fun a _ => ?_) m' f h
    exact (atomic_read _).bind_total fun _ => total_perform _

theorem atomic_arithmetic (op : Arith) (dest src : Word) : Atomic (arithmetic op dest src) m := by
  intro m' f h
  unfold arithmetic at h
  rw [machine_bind] at h
  split at h
  · refine atomic_read_bind (fun xy _ => ?_) m' f h
    obtain ⟨x, y⟩ := xy
    simp only
    split
    · exact atomic_fail _
    · exact atomic_storeNumber _
  · refine atomic_read_bind (fun b _ => ?_) m' f h
    split
    · exact atomic_fail _
    · exact atomic_read_bind fun a _ => atomic_setRegister dest _

/-- A value is printed by one write; digits are printed one after the other. -/
theorem atomic_printValue (h : m.regs.tagA ≠ some .string) : Atomic printValue m := by
  intro m' f hf
  unfold printValue at hf
  rw [machine_bind] at hf
  cases ht : m.regs.tagA with
  | none =>
    simp only [ht] at hf
    exact (total_pure ()).atomic m' f hf
  | some t =>
    cases t with
    | string => exact absurd ht h
    | _ =>
      simp only [ht] at hf
      exact atomic_print _ m' f hf

theorem atomic_act {i : Instruction} (h : i = .prnt → m.regs.tagA ≠ some .string) :
    Atomic (act i) m := by
  cases i with
  | clf => exact (total_perform _).atomic
  | cmp dest src => exact atomic_compare dest src
  | cmpi dest imm => exact atomic_read_bind fun a _ => (total_perform _).atomic
  | mov dest src => exact atomic_read_bind fun w _ => atomic_setRegister dest w
  | sti addr src => exact atomic_read_bind fun w _ => atomic_store addr w
  | ldi dest addr => exact atomic_read_bind fun w _ => atomic_setRegister dest w
  | lii dest imm => exact atomic_setRegister dest imm
  | push reg => exact atomic_read_bind fun w _ => atomic_push w
  -- The register was checked, so nothing can fail once the stack has moved.
  | pop reg => exact atomic_read_bind fun _ hreg => atomic_pop.bind_total (total_setRegister hreg)
  | unary op dest => exact atomic_read_bind fun w _ => atomic_setRegister dest _
  | arith op dest src => exact atomic_arithmetic op dest src
  | jump c target => exact (total_pure ()).atomic
  | bitwise op dest src =>
    exact atomic_read_bind fun b _ => atomic_read_bind fun a _ => atomic_setRegister dest _
  | prnt => exact atomic_printValue (h rfl)
  | hlt => exact (total_perform _).atomic

/-! ## A whole attempt -/

/-- A fetch keeps the machine, whether it fails or not. -/
theorem kept_fetch (m : Machine) : m.Kept (fetch m).1 := by
  have hwithin : Within (fun _ e => ∃ inst dest src, e = .latch inst dest src) fetch :=
    within_fetch fun _ _ _ _ => ⟨_, _, _, rfl⟩
  refine (hwithin m).keeps (P := fun m' => m.Kept m') ?_ (.refl m)
  rintro m' _ hm ⟨inst, dest, src, rfl⟩
  exact hm.trans ⟨inst, dest, src, m'.out.answers, rfl⟩

/-- What is fetched stands at the next address. -/
theorem holds_of_fetch {m m₁ : Machine} {i : Instruction}
    (h : fetch m.advance = (m₁, .ok (some i))) : m.Holds i := by
  obtain ⟨p, _, _, _, hp, -, -, hdecoded⟩ := fetch_eq_ok h
  rcases decoded_eq_ok hdecoded with ⟨j, ⟨⟩, hj⟩ | ⟨⟨⟩, -⟩
  exact ⟨p, hp, Instruction.decode_eq_ok_iff.mp hj⟩

/-- Without a trace, an attempt fails in the fetch or in what the instruction does. -/
theorem attempt_error_cases {m m' : Machine} {f : Fault} (hd : m.config.debug = false)
    (h : attempt m = (m', .error f)) :
    fetch m = (m', .error f) ∨
      ∃ m₁ i, fetch m = (m₁, .ok (some i)) ∧ act i m₁ = (m', .error f) := by
  have hkept := kept_fetch m
  cases hfetch : fetch m with
  | mk m₁ r =>
    have hdebug : m₁.config.debug = false := by
      rw [hfetch] at hkept
      obtain ⟨_, _, _, _, rfl⟩ := hkept
      exact hd
    cases r with
    | error e =>
      unfold attempt at h
      rw [bind_of_error hfetch] at h
      exact .inl h
    | ok i =>
      cases i with
      | none =>
        rw [attempt_of_fetch_none hfetch hdebug] at h
        cases h
      | some i =>
        rw [attempt_of_fetch_some hfetch hdebug] at h
        refine .inr ⟨m₁, i, rfl, ?_⟩
        cases hact : act i m₁ with
        | mk m₂ r =>
          cases r with
          | error e =>
            have hexecute : execute i m₁ = (m₂, .error e) := bind_of_error hact _
            rw [hexecute] at h
            cases h
            rfl
          | ok u =>
            have hexecute : (execute i m₁).2 = .ok () := congrArg Prod.snd (bind_of_ok hact _)
            rw [hexecute] at h
            cases h

theorem atomic_attempt {m : Machine} (hd : m.config.debug = false)
    (hp : ¬(m.Holds .prnt ∧ m.regs.tagA = some .string)) : Atomic attempt m.advance := by
  intro m' f h
  have hkept := kept_fetch m.advance
  rcases attempt_error_cases (m := m.advance) hd h with hfetch | ⟨m₁, i, hfetch, hact⟩
  · rw [hfetch] at hkept
    exact hkept
  · rw [hfetch] at hkept
    refine hkept.trans (atomic_act ?_ m' f hact)
    rintro rfl ht
    obtain ⟨_, _, _, _, rfl⟩ := hkept
    exact hp ⟨holds_of_fetch hfetch, ht⟩

end Exec

namespace Machine

/-- A step that fails without a trace, and not in printing digits, stops the machine on the opcode
cell. Registers, flags, stack pointer, memory, the text printed, the cycle counter and the last
instruction are as they were. -/
theorem step_error_keeps {m m' : Machine} {f : Fault} (hr : m.status = .running)
    (hd : m.config.debug = false) (hp : ¬(m.Holds .prnt ∧ m.regs.tagA = some .string))
    (h : m.step = (m', .error f)) :
    m'.regs = m.regs ∧ m'.sp = m.sp ∧ m'.mem = m.mem ∧ m'.out.text = m.out.text ∧
      m'.cycles = m.cycles ∧ m'.lastInstr = m.lastInstr ∧ m'.status = .faulted ∧
      m'.pc = m.pc + 1 := by
  cases ha : Exec.attempt m.advance with
  | mk m₁ r =>
    cases r with
    | ok i =>
      rw [step_of_ok hr ha] at h
      cases h
    | error g =>
      obtain ⟨_, _, _, _, rfl⟩ := Exec.atomic_attempt hd hp m₁ g ha
      rw [step_of_error hr ha] at h
      cases h
      exact ⟨rfl, rfl, rfl, rfl, rfl, rfl, rfl, rfl⟩

/-- `POP 1` of a machine whose stack is empty, in the last two of its cells. -/
theorem step_error_keeps_pop :
    let m : Machine := { new ⟨#[0, 0, 8, 1]⟩ with pc := 1, sp := 4, cycles := 7 }
    ∃ m', m.step = (m', .error (.stackUnderflow 4)) ∧ m'.regs = m.regs ∧ m'.sp = 4 ∧
      m'.mem = m.mem ∧ m'.cycles = 7 ∧ m'.pc = 2 ∧ m'.status = .faulted := by
  intro m
  have herror : m.step.2 = .error (.stackUnderflow 4) := by decide +kernel
  have hprnt : ¬(m.Holds .prnt ∧ m.regs.tagA = some .string) := fun h => nomatch h.2
  obtain ⟨m', hstep⟩ : ∃ m', m.step = (m', .error (.stackUnderflow 4)) :=
    ⟨m.step.1, by rw [← herror]⟩
  obtain ⟨hregs, hsp, hmem, -, hcycles, -, hstatus, hpc⟩ := step_error_keeps rfl rfl hprnt hstep
  exact ⟨m', hstep, hregs, hsp, hmem, hcycles, hpc, hstatus⟩

end Machine

end CellMachine
