import CellMachine.Proofs.Machine.Execution

/-!
# CellMachine.Proofs.Machine.Lockstep

Two machines side by side whose processors and memories agree. Settings and output may differ.

* `Machine.Lockstep` — a relation between machines that is kept when both sides make the same change
  or print the same text.
* `Exec.Agrees`      — a computation that gives the same result on both sides and keeps the
  relation.
* `Exec.agrees_act`  — every instruction does, and its faults are not those of a fetch.
* `Machine.after`    — the machine after so many steps, whatever they return.
-/

namespace CellMachine

/-- A machine without its settings and its output. -/
def Machine.bare (m : Machine) : Machine := { m.toCore with mem := m.mem }

/-- A change that does not touch the output. -/
def Effect.IsQuiet : Effect → Prop
  | .output _ => False
  | _ => True

/-- A relation between machines that agree in everything but settings and output, and go on to agree
where both make a change or print. -/
structure Machine.Lockstep (R : Machine → Machine → Prop) : Prop where
  bare : ∀ {m n}, R m n → m.bare = n.bare
  apply : ∀ {m n e}, R m n → e.IsQuiet → R (m.apply e) (n.apply e)
  print : ∀ {m n} (text), R m n → R (Exec.print text m).1 (Exec.print text n).1 ∧
    (Exec.print text m).2 = (Exec.print text n).2

/-- A fault that an instruction may raise, once it has been fetched. -/
def Fault.OfInstruction : Fault → Prop
  | .notRunning _ | .unknownOpcode .. => False
  | _ => True

/-- If `r` is a fault, it is one of `E`. -/
def FaultIn {α : Type} (E : Fault → Prop) (r : Except Fault α) : Prop := ∀ f, r = .error f → E f

namespace FaultIn

variable {α β ε : Type} {E : Fault → Prop}

theorem ok (a : α) : FaultIn E (.ok a) := by
  rintro _ ⟨⟩

theorem error {f : Fault} (h : E f) : FaultIn E (.error f : Except Fault α) := by
  rintro _ ⟨⟩
  exact h

theorem mapError {c : ε → Fault} (h : ∀ e, E (c e)) (x : Except ε α) :
    FaultIn E (x.mapError c) := by
  intro f hf
  cases x with
  | error e =>
    obtain rfl : c e = f := Except.error.inj hf
    exact h e
  | ok a => cases hf

theorem map {x : Except Fault α} (h : FaultIn E x) (g : α → β) : FaultIn E (x.map g) := by
  intro f hf
  cases x with
  | error e =>
    obtain rfl : e = f := Except.error.inj hf
    exact h e rfl
  | ok a => cases hf

theorem bind {x : Except Fault α} {g : α → Except Fault β} (hx : FaultIn E x)
    (hg : ∀ a, FaultIn E (g a)) : FaultIn E (x >>= g) := by
  intro f hf
  cases x with
  | error e =>
    obtain rfl : e = f := Except.error.inj hf
    exact hx e rfl
  | ok a => exact hg a f hf

end FaultIn

namespace Exec

variable {R : Machine → Machine → Prop} {E : Fault → Prop} {α β : Type}

/-- On related machines `x` gives the same result and leaves related machines; if the result is a
fault, it is one of `E`. -/
def Agrees (R : Machine → Machine → Prop) (E : Fault → Prop) (x : Exec α) : Prop :=
  ∀ m n, R m n → ∃ r m' n', x m = (m', r) ∧ x n = (n', r) ∧ R m' n' ∧ FaultIn E r

theorem Agrees.mono {E' : Fault → Prop} {x : Exec α} (h : Agrees R E x)
    (hE : ∀ f, E f → E' f) : Agrees R E' x := by
  intro m n hmn
  obtain ⟨r, m', n', hm, hn, h', hr⟩ := h m n hmn
  exact ⟨r, m', n', hm, hn, h', fun f hf => hE f (hr f hf)⟩

theorem agrees_pure (a : α) : Agrees R E (pure a : Exec α) :=
  fun m n h => ⟨.ok a, m, n, rfl, rfl, h, .ok a⟩

theorem agrees_fail {f : Fault} (hf : E f) : Agrees R E (fail f : Exec α) :=
  fun m n h => ⟨.error f, m, n, rfl, rfl, h, .error hf⟩

theorem Agrees.bind {x : Exec α} {g : α → Exec β} (hx : Agrees R E x)
    (hg : ∀ a, Agrees R E (g a)) : Agrees R E (x >>= g) := by
  intro m n h
  obtain ⟨r, m', n', hm, hn, h', hr⟩ := hx m n h
  cases r with
  | ok a =>
    rw [bind_of_ok hm, bind_of_ok hn]
    exact hg a m' n' h'
  | error f =>
    rw [bind_of_error hm, bind_of_error hn]
    exact ⟨.error f, m', n', rfl, rfl, h', .error (hr f rfl)⟩

theorem Agrees.ite {c : Prop} [Decidable c] {x y : Exec α} (hx : Agrees R E x)
    (hy : Agrees R E y) : Agrees R E (if c then x else y) := by
  split
  · exact hx
  · exact hy

section Rules

variable (hR : Machine.Lockstep R)
include hR

/-- What is read may depend on the processor and on memory only. -/
theorem agrees_read {f : Machine → Except Fault α} (hbare : ∀ m, f m = f m.bare)
    (hf : ∀ m, FaultIn E (f m)) : Agrees R E (read f) := by
  intro m n h
  refine ⟨f m, m, n, rfl, ?_, h, hf m⟩
  rw [read_apply, hbare m, hR.bare h, ← hbare n]

/-- A computation that goes on by the processor and by memory only. -/
theorem agrees_machine {g : Machine → Exec β} (hbare : ∀ m, g m = g m.bare)
    (hg : ∀ m, Agrees R E (g m)) : Agrees R E (machine >>= g) := by
  intro m n h
  rw [machine_bind, machine_bind, hbare n, ← hR.bare h, ← hbare m]
  exact hg m m n h

theorem agrees_perform {e : Effect} (he : e.IsQuiet) : Agrees R E (perform e) :=
  fun _ _ h => ⟨.ok (), _, _, rfl, rfl, hR.apply h he, .ok ()⟩

/-! ## Registers, memory and the stack -/

theorem agrees_register (index : Word) : Agrees R Fault.OfInstruction (register index) :=
  agrees_read hR (fun _ => rfl) fun _ => .mapError (fun _ => trivial) _

theorem agrees_setRegister (index w : Word) :
    Agrees R Fault.OfInstruction (setRegister index w) :=
  (agrees_read hR (fun _ => rfl) fun _ => .mapError (fun _ => trivial) _).bind fun _ =>
    agrees_perform hR trivial

theorem agrees_load (addr : Word) : Agrees R Fault.OfInstruction (load addr) :=
  agrees_read hR (fun _ => rfl) fun _ => .mapError (fun _ => trivial) _

theorem agrees_store (addr w : Word) : Agrees R Fault.OfInstruction (store addr w) :=
  (agrees_read hR (fun _ => rfl) fun _ => .map (.mapError (fun _ => trivial) _) _).bind fun _ =>
    agrees_perform hR trivial

theorem agrees_push (w : Word) : Agrees R Fault.OfInstruction (push w) :=
  agrees_machine hR (fun _ => rfl) fun _ => .ite (agrees_fail trivial) <|
    (agrees_store hR _ _).bind fun _ => agrees_perform hR trivial

theorem agrees_pop : Agrees R Fault.OfInstruction pop :=
  agrees_machine hR (fun _ => rfl) fun _ => .ite (agrees_fail trivial) <|
    (agrees_load hR _).bind fun w => (agrees_perform hR (by trivial)).bind fun _ => agrees_pure w

/-! ## Decimals -/

theorem agrees_numbers : Agrees R Fault.OfInstruction (read (·.numbers)) := by
  refine agrees_read hR (fun _ => rfl) fun m => ?_
  rw [numbers_eq]
  exact .bind (.mapError (fun _ => trivial) _) fun x =>
    .bind (.mapError (fun _ => trivial) _) fun y => .ok _

theorem agrees_storeNumber (x : Binary64) : Agrees R Fault.OfInstruction (storeNumber x) := by
  have hread : Agrees R Fault.OfInstruction (read (·.storeNumber x)) :=
    agrees_read hR (fun _ => rfl) fun _ => .bind (.mapError (fun _ => trivial) _) fun _ =>
      .bind (.mapError (fun _ => trivial) _) fun _ => .ok _
  intro m n h
  obtain ⟨r, m', n', hm, hn, h', hr⟩ := hread m n h
  cases r with
  | error f =>
    exact ⟨.error f, m', n', bind_of_error hm _, bind_of_error hn _, h', .error (hr f rfl)⟩
  | ok e =>
    obtain ⟨i, t, rfl⟩ := Machine.exists_decimal_of_storeNumber (Prod.mk.inj hm).2
    exact ⟨.ok (), _, _, bind_of_ok hm _, bind_of_ok hn _, hR.apply h' trivial, .ok ()⟩

/-! ## Printing -/

theorem agrees_print (text : String) : Agrees R Fault.OfInstruction (print text) := by
  intro m n h
  obtain ⟨h', hresult⟩ := hR.print text h
  refine ⟨(print text m).2, _, _, rfl, Prod.ext rfl hresult.symm, h', ?_⟩
  show FaultIn _ ((m.out.write text).2.elim _ _)
  cases (m.out.write text).2 with
  | none => exact .ok ()
  | some reason => exact .error trivial

/-- By induction on the number of digits. -/
theorem agrees_printDigits (count : Nat) : Agrees R Fault.OfInstruction (printDigits count) := by
  induction count with
  | zero => exact agrees_print hR _
  | succ count ih =>
    refine (agrees_pop hR).bind fun w => (agrees_perform hR (by trivial)).bind fun _ => .ite ?_ ?_
    · exact (agrees_print hR _).bind fun _ => ih
    · exact agrees_fail trivial

theorem agrees_printValue : Agrees R Fault.OfInstruction printValue := by
  refine agrees_machine hR (fun _ => rfl) fun m => ?_
  simp only
  split
  · exact agrees_print hR _
  · exact agrees_print hR _
  · exact agrees_print hR _
  · exact agrees_printDigits hR _
  · exact agrees_pure _

/-! ## Instructions -/

theorem agrees_compare (dest src : Word) : Agrees R Fault.OfInstruction (compare dest src) := by
  refine agrees_machine hR (fun _ => rfl) fun m => .ite ?_ ?_
  · exact (agrees_numbers hR).bind fun _ => agrees_perform hR trivial
  · exact (agrees_register hR _).bind fun a => (agrees_register hR _).bind fun b =>
      agrees_perform hR trivial

theorem agrees_arithmetic (op : Arith) (dest src : Word) :
    Agrees R Fault.OfInstruction (arithmetic op dest src) := by
  refine agrees_machine hR (fun _ => rfl) fun m => .ite ?_ ?_
  · exact (agrees_numbers hR).bind fun _ => .ite (agrees_fail trivial) (agrees_storeNumber hR _)
  · exact (agrees_register hR _).bind fun b => .ite (agrees_fail trivial) <|
      (agrees_register hR _).bind fun a => agrees_setRegister hR _ _

theorem agrees_act (i : Instruction) : Agrees R Fault.OfInstruction (act i) := by
  cases i with
  | clf => exact agrees_perform hR trivial
  | cmp dest src => exact agrees_compare hR dest src
  | cmpi dest imm => exact (agrees_register hR _).bind fun a => agrees_perform hR trivial
  | mov dest src => exact (agrees_register hR _).bind fun w => agrees_setRegister hR _ _
  | sti addr src => exact (agrees_register hR _).bind fun w => agrees_store hR _ _
  | ldi dest addr => exact (agrees_load hR _).bind fun w => agrees_setRegister hR _ _
  | lii dest imm => exact agrees_setRegister hR _ _
  | push reg => exact (agrees_register hR _).bind fun w => agrees_push hR w
  | pop reg =>
    exact (agrees_register hR _).bind fun _ => (agrees_pop hR).bind fun w =>
      agrees_setRegister hR _ _
  | unary op dest => exact (agrees_register hR _).bind fun w => agrees_setRegister hR _ _
  | arith op dest src => exact agrees_arithmetic hR op dest src
  | jump c target => exact agrees_pure _
  | bitwise op dest src =>
    exact (agrees_register hR _).bind fun b => (agrees_register hR _).bind fun a =>
      agrees_setRegister hR _ _
  | prnt => exact agrees_printValue hR
  | hlt => exact agrees_perform hR trivial

/-! ## Attempts -/

/-- An instruction that was fetched, or nothing for a cell passed over. -/
theorem agrees_carryOut (i : Option Instruction) :
    Agrees R Fault.OfInstruction (i.elim (return) execute) := by
  cases i with
  | none => exact agrees_pure _
  | some i =>
    exact (agrees_act hR i).bind fun _ => agrees_machine hR (fun _ => rfl) fun m =>
      agrees_perform hR (by trivial)

theorem agrees_trace : Agrees R Fault.OfInstruction trace :=
  agrees_machine hR (fun _ => rfl) fun _ => agrees_print hR _

/-- The same is fetched if cells that hold no opcode are treated alike. -/
theorem agrees_fetch
    (hpolicy : ∀ {m n}, R m n → m.config.unknownOpcode = n.config.unknownOpcode) :
    Agrees R (fun _ => True) fetch := by
  refine agrees_machine hR (fun _ => rfl) fun m => ?_
  refine (agrees_read hR (fun _ => rfl) fun _ _ _ => trivial).bind fun inst => ?_
  refine (agrees_perform hR (by trivial)).bind fun _ => ?_
  refine (agrees_read hR (fun _ => rfl) fun _ _ _ => trivial).bind fun cells => ?_
  intro m n h
  refine ⟨decoded m cells, m, n, rfl, Prod.ext rfl ?_, h, fun _ _ => trivial⟩
  have hpc : n.bare.pc = m.bare.pc := by rw [hR.bare h]
  have hmem : n.bare.mem = m.bare.mem := by rw [hR.bare h]
  change n.pc = m.pc at hpc
  change n.mem = m.mem at hmem
  simp only [read_apply, decoded, hpolicy h, hpc, hmem]

end Rules

/-- An attempt without the trace at its end. -/
def untraced : Exec (Option Instruction) := do
  let i ← fetch
  i.elim (return) execute
  return i

theorem attempt_eq (m : Machine) : attempt m = (untraced >>= finish) m := by
  unfold attempt untraced
  simp only [bind_apply]
  cases fetch m with
  | mk m₁ r =>
    cases r with
    | error f => rfl
    | ok i =>
      simp only
      cases i.elim (return) execute m₁ with
      | mk m₂ r =>
        cases r with
        | error f => rfl
        | ok _ => rfl

theorem agrees_untraced (hR : Machine.Lockstep R)
    (hpolicy : ∀ {m n}, R m n → m.config.unknownOpcode = n.config.unknownOpcode) :
    Agrees R (fun _ => True) untraced :=
  (agrees_fetch hR hpolicy).bind fun i =>
    ((agrees_carryOut hR i).mono fun _ _ => trivial).bind fun _ => agrees_pure i

/-- Both sides trace, or none does. -/
theorem agrees_finish (hR : Machine.Lockstep R)
    (hdebug : ∀ {m n}, R m n → m.config.debug = n.config.debug) (i : Option Instruction) :
    Agrees R Fault.OfInstruction (finish i) := by
  intro m n h
  unfold finish
  rw [machine_bind, machine_bind, hdebug h]
  split
  · exact ((agrees_trace hR).bind fun _ => agrees_pure i) m n h
  · exact agrees_pure i m n h

end Exec

/-- The machine after `k` steps, whatever they return. -/
def Machine.after (m : Machine) : Nat → Machine
  | 0 => m
  | k + 1 => (m.after k).step.1

end CellMachine
