import CellMachine.Machine.Step

/-!
# CellMachine.Machine.Within

Which changes a computation makes.

* `Machine.Via A m m'`   — `m'` is reached from `m` by effects that `A` allows.
* `Exec.Within A x`      — whatever `x` does, it does by effects that `A` allows.
* `Instruction.Permits`  — the effects that an instruction may have, with the bounds of the stack.

A property that every allowed effect keeps is kept by the whole computation, also where it ends with
a fault (`Machine.Via.keeps`).
-/

namespace CellMachine

/-- `m'` is reached from `m` by allowed effects, each allowed where it happens. -/
inductive Machine.Via (A : Machine → Effect → Prop) (m : Machine) : Machine → Prop where
  | refl : Via A m m
  | change {m' : Machine} {e : Effect} : Via A m m' → A m' e → Via A m (m'.apply e)

namespace Machine.Via

variable {A B : Machine → Effect → Prop} {m m' m'' : Machine}

theorem single {e : Effect} (h : A m e) : Via A m (m.apply e) := .change .refl h

theorem trans (h₁ : Via A m m') (h₂ : Via A m' m'') : Via A m m'' := by
  induction h₂ with
  | refl => exact h₁
  | change _ he ih => exact .change ih he

theorem mono (hAB : ∀ m e, A m e → B m e) (h : Via A m m') : Via B m m' := by
  induction h with
  | refl => exact .refl
  | change _ he ih => exact .change ih (hAB _ _ he)

/-- What every allowed effect keeps is kept. -/
theorem keeps {P : Machine → Prop} (hP : ∀ m e, P m → A m e → P (m.apply e)) (h : Via A m m')
    (hm : P m) : P m' := by
  induction h with
  | refl => exact hm
  | change _ he ih => exact hP _ _ ih he

end Machine.Via

theorem Machine.exists_decimal_of_storeNumber {m : Machine} {x : Binary64} {e : Effect}
    (h : m.storeNumber x = .ok e) : ∃ i t, e = .decimal i t := by
  simp only [storeNumber, bind, Except.bind, pure, Except.pure] at h
  split at h
  · cases h
  · split at h
    · cases h
    · cases h
      exact ⟨_, _, rfl⟩

/-- The effects that an instruction may have on `m`, apart from its fetch and its move of the program
counter. The stack pointer goes down above the first cell and up below the end of memory only, and
the sink changes only by being asked to take a text. -/
def Instruction.Permits (i : Instruction) (m : Machine) : Effect → Prop
  | .flags f => f = {} ∨ ∃ o, f = .ofOrdering o
  | .stack sp =>
    (0 < m.sp.toInt ∧ sp = m.sp - 1) ∨
      (0 ≤ m.sp.toInt ∧ m.sp.toInt < m.mem.size ∧ sp = m.sp + 1)
  | .output out => i = .prnt ∧ ∃ text, out = (m.out.write text).1
  | .halt => i = .hlt
  | .latch .. | .jump _ => False
  | .register .. | .decimal .. | .store .. => True

namespace Exec

/-- Whatever `x` does, it does by allowed effects. -/
def Within {α : Type} (A : Machine → Effect → Prop) (x : Exec α) : Prop :=
  ∀ m, Machine.Via A m (x m).1

variable {A B : Machine → Effect → Prop} {α β : Type}

theorem Within.mono {x : Exec α} (hAB : ∀ m e, A m e → B m e) (h : Within A x) : Within B x :=
  fun m => (h m).mono hAB

theorem within_pure (a : α) : Within A (pure a : Exec α) := fun _ => .refl

theorem within_read (f : Machine → Except Fault α) : Within A (read f) := fun _ => .refl

theorem within_machine : Within A machine := fun _ => .refl

theorem within_fail (f : Fault) : Within A (fail f : Exec α) := fun _ => .refl

theorem within_perform {e : Effect} (h : ∀ m, A m e) : Within A (perform e) :=
  fun m => .single (h m)

theorem Within.bind {x : Exec α} {f : α → Exec β} (hx : Within A x) (hf : ∀ a, Within A (f a)) :
    Within A (x >>= f) := by
  intro m
  have h := hx m
  rw [bind_apply]
  split
  · rename_i m' a hxm
    rw [hxm] at h
    exact h.trans (hf a m')
  · rename_i m' e hxm
    rwa [hxm] at h

theorem Within.ite {c : Prop} [Decidable c] {x y : Exec α} (hx : Within A x) (hy : Within A y) :
    Within A (if c then x else y) := by
  split
  · exact hx
  · exact hy

theorem within_print (h : ∀ m text, A m (.output (m.out.write text).1)) (text : String) :
    Within A (print text) := fun m => .single (h m text)

theorem within_print_prnt (text : String) : Within Instruction.prnt.Permits (print text) :=
  within_print (fun _ text => ⟨rfl, text, rfl⟩) text

/-! ## Registers, memory and the stack -/

theorem within_register (index : Word) : Within A (register index) := within_read _

theorem within_load (addr : Word) : Within A (load addr) := within_read _

theorem within_setRegister (h : ∀ m i w, A m (.register i w)) (index w : Word) :
    Within A (setRegister index w) :=
  (within_read _).bind fun i => within_perform fun m => h m i w

theorem within_store (h : ∀ m p w, A m (.store p w)) (addr w : Word) : Within A (store addr w) :=
  (within_read _).bind fun p => within_perform fun m => h m p w

theorem within_storeNumber (h : ∀ m i t, A m (.decimal i t)) (x : Binary64) :
    Within A (storeNumber x) := by
  intro m
  unfold storeNumber
  rw [bind_apply, read_apply]
  cases hx : m.storeNumber x with
  | error f => exact .refl
  | ok e =>
    obtain ⟨i, t, rfl⟩ := Machine.exists_decimal_of_storeNumber hx
    exact .single (h m i t)

theorem within_push {i : Instruction} (w : Word) : Within i.Permits (push w) := by
  intro m
  unfold push
  rw [machine_bind]
  split
  · exact .refl
  · rename_i hsp
    rw [Int64.le_iff_toInt_le, Int64.toInt_zero] at hsp
    simp only [store, bind_apply, read_apply]
    cases hp : m.position (m.sp - 1) with
    | error f => exact .refl
    | ok p =>
      have hstore : i.Permits m (.store p w) := trivial
      have hstack : i.Permits (m.apply (.store p w)) (.stack (m.sp - 1)) :=
        .inl ⟨Int.not_le.mp hsp, rfl⟩
      exact .change (.single hstore) hstack

theorem within_pop {i : Instruction} : Within i.Permits pop := by
  intro m
  unfold pop
  rw [machine_bind]
  split
  · exact .refl
  · rename_i hsp
    rw [Int64.lt_iff_toInt_lt, Int64.toInt_zero] at hsp
    simp only [load, bind_apply, read_apply]
    cases hw : m.load m.sp with
    | error f => exact .refl
    | ok w =>
      have hstack : i.Permits m (.stack (m.sp + 1)) := .inr ⟨by omega, by omega, rfl⟩
      exact .single hstack

/-! ## Instructions -/

theorem within_compare {i : Instruction} (dest src : Word) :
    Within i.Permits (compare dest src) := by
  refine within_machine.bind fun m => .ite ?_ ?_
  · exact (within_read _).bind fun _ => within_perform fun _ => Flags.ofNumbers_cases _ _
  · exact (within_register _).bind fun a => (within_register _).bind fun b =>
      within_perform fun _ => .inr ⟨_, rfl⟩

theorem within_arithmetic {i : Instruction} (op : Arith) (dest src : Word) :
    Within i.Permits (arithmetic op dest src) := by
  refine within_machine.bind fun m => .ite ?_ ?_
  · refine (within_read _).bind fun _ => .ite (within_fail _) ?_
    exact within_storeNumber (fun _ _ _ => trivial) _
  · refine (within_register _).bind fun b => .ite (within_fail _) ?_
    exact (within_register _).bind fun a => within_setRegister (fun _ _ _ => trivial) _ _

/-- By induction on the number of digits. -/
theorem within_printDigits (count : Nat) : Within Instruction.prnt.Permits (printDigits count) := by
  induction count with
  | zero => exact within_print_prnt _
  | succ count ih =>
    refine within_pop.bind fun w => (within_perform fun _ => trivial).bind fun _ => .ite ?_ ?_
    · exact (within_print_prnt _).bind fun _ => ih
    · exact within_fail _

theorem within_printValue : Within Instruction.prnt.Permits printValue := by
  refine within_machine.bind fun m => ?_
  simp only
  split
  · exact within_print_prnt _
  · exact within_print_prnt _
  · exact within_print_prnt _
  · exact within_printDigits _
  · exact within_pure _

theorem within_act (i : Instruction) : Within i.Permits (act i) := by
  cases i with
  | clf => exact within_perform fun _ => .inl rfl
  | cmp dest src => exact within_compare dest src
  | cmpi dest imm =>
    exact (within_register _).bind fun a => within_perform fun _ => .inr ⟨_, rfl⟩
  | mov dest src =>
    exact (within_register _).bind fun w => within_setRegister (fun _ _ _ => trivial) _ _
  | sti addr src =>
    exact (within_register _).bind fun w => within_store (fun _ _ _ => trivial) _ _
  | ldi dest addr =>
    exact (within_load _).bind fun w => within_setRegister (fun _ _ _ => trivial) _ _
  | lii dest imm => exact within_setRegister (fun _ _ _ => trivial) _ _
  | push reg => exact (within_register _).bind fun w => within_push w
  | pop reg =>
    exact (within_register _).bind fun _ => within_pop.bind fun w =>
      within_setRegister (fun _ _ _ => trivial) _ _
  | unary op dest =>
    exact (within_register _).bind fun w => within_setRegister (fun _ _ _ => trivial) _ _
  | arith op dest src => exact within_arithmetic op dest src
  | jump c target => exact within_pure _
  | bitwise op dest src =>
    exact (within_register _).bind fun b => (within_register _).bind fun a =>
      within_setRegister (fun _ _ _ => trivial) _ _
  | prnt => exact within_printValue
  | hlt => exact within_perform fun _ => rfl

/-! ## A whole attempt -/

theorem within_execute (h : ∀ m pc, A m (.jump pc)) {i : Instruction}
    (hi : ∀ m e, i.Permits m e → A m e) : Within A (execute i) :=
  ((within_act i).mono hi).bind fun _ => within_machine.bind fun _ => within_perform fun m => h m _

theorem within_fetch (h : ∀ m inst dest src, A m (.latch inst dest src)) : Within A fetch := by
  refine within_machine.bind fun m => (within_load _).bind fun inst => ?_
  refine (within_perform fun m' => h m' _ _ _).bind fun _ => ?_
  exact (within_read _).bind fun cells => within_read _

theorem within_trace (h : ∀ m text, A m (.output (m.out.write text).1)) : Within A trace :=
  within_machine.bind fun _ => within_print h _

theorem within_attempt (hlatch : ∀ m inst dest src, A m (.latch inst dest src))
    (hact : ∀ (i : Instruction) m e, i.Permits m e → A m e) (hjump : ∀ m pc, A m (.jump pc)) :
    Within A attempt := by
  have hout : ∀ m text, A m (.output (m.out.write text).1) :=
    fun m text => hact .prnt m _ ⟨rfl, text, rfl⟩
  refine (within_fetch hlatch).bind fun i => Within.bind ?_ fun _ => ?_
  · cases i with
    | none => exact within_pure _
    | some i => exact within_execute hjump (hact i)
  · refine within_machine.bind fun m => ?_
    split
    · exact (within_trace hout).bind fun _ => within_pure _
    · exact within_pure _

end Exec

end CellMachine
