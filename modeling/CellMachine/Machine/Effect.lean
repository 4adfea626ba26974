import CellMachine.Machine.Basic

/-!
# CellMachine.Machine.Effect

The single changes to a machine, and computations made of them.

* `Effect` — one change, and `Machine.apply`, the machine after it.
* `Exec`   — a computation that reads and changes a machine, and ends with a result or a fault.

A fault ends a computation at once. What was changed before it stays changed.
-/

namespace CellMachine

/-- A change to a machine. Positions in it are good ones. -/
inductive Effect where
  | flags (f : Flags)
  | register (i : Fin 16) (w : Word)
  | decimal (i : Fin 14) (t : Triple)
  | store (position : Nat) (w : Word)
  | stack (sp : Word)
  | output (out : Sink)
  | latch (inst dest src : Word)
  | jump (pc : Word)
  | halt
  deriving DecidableEq

def Machine.apply (m : Machine) : Effect → Machine
  | .flags f => { m with regs := { m.regs with flags := f } }
  | .register i w => { m with regs := m.regs.put i w }
  | .decimal i t => { m with regs := m.regs.putTriple i t }
  | .store i w => { m with mem := m.mem.put i w }
  | .stack sp => { m with sp }
  | .output out => { m with out }
  | .latch inst dest src => { m with inst, dest, src }
  | .jump pc => { m with pc }
  | .halt => { m with status := .halted }

def Exec (α : Type) : Type := Machine → Machine × Except Fault α

namespace Exec

instance : Monad Exec where
  pure a := fun m => (m, .ok a)
  bind x f := fun m =>
    match x m with
    | (m, .ok a) => f a m
    | (m, .error e) => (m, .error e)

@[simp] theorem pure_apply {α : Type} (a : α) (m : Machine) :
    (pure a : Exec α) m = (m, .ok a) := rfl

theorem bind_apply {α β : Type} (x : Exec α) (f : α → Exec β) (m : Machine) :
    (x >>= f) m = match x m with
      | (m, .ok a) => f a m
      | (m, .error e) => (m, .error e) := rfl

theorem bind_of_ok {α β : Type} {x : Exec α} {m m' : Machine} {a : α} (h : x m = (m', .ok a))
    (f : α → Exec β) : (x >>= f) m = f a m' := by
  rw [bind_apply, h]

theorem bind_of_error {α β : Type} {x : Exec α} {m m' : Machine} {e : Fault}
    (h : x m = (m', .error e)) (f : α → Exec β) : (x >>= f) m = (m', .error e) := by
  rw [bind_apply, h]

/-- A sequence gives a result if both of its parts do. -/
theorem bind_eq_ok {α β : Type} {x : Exec α} {f : α → Exec β} {m m' : Machine} {b : β}
    (h : (x >>= f) m = (m', .ok b)) :
    ∃ m₁ a, x m = (m₁, .ok a) ∧ f a m₁ = (m', .ok b) := by
  rw [bind_apply] at h
  split at h
  · rename_i m₁ a hx
    exact ⟨m₁, a, hx, h⟩
  · cases h

def read {α : Type} (f : Machine → Except Fault α) : Exec α := fun m => (m, f m)

@[simp] theorem read_apply {α : Type} (f : Machine → Except Fault α) (m : Machine) :
    read f m = (m, f m) := rfl

def machine : Exec Machine := fun m => (m, .ok m)

@[simp] theorem machine_apply (m : Machine) : machine m = (m, .ok m) := rfl

def fail {α : Type} (f : Fault) : Exec α := fun m => (m, .error f)

@[simp] theorem fail_apply {α : Type} (f : Fault) (m : Machine) :
    (fail f : Exec α) m = (m, .error f) := rfl

def perform (e : Effect) : Exec Unit := fun m => (m.apply e, .ok ())

@[simp] theorem perform_apply (e : Effect) (m : Machine) :
    perform e m = (m.apply e, .ok ()) := rfl

theorem machine_bind {β : Type} (g : Machine → Exec β) (m : Machine) :
    (machine >>= g) m = g m m := rfl

theorem perform_bind {β : Type} (e : Effect) (g : Unit → Exec β) (m : Machine) :
    (perform e >>= g) m = g () (m.apply e) := rfl

theorem read_bind_of_ok {α β : Type} {f : Machine → Except Fault α} {m : Machine} {a : α}
    (h : f m = .ok a) (g : α → Exec β) : (read f >>= g) m = g a m :=
  bind_of_ok (by rw [read_apply, h]) g

theorem read_bind_eq_ok {α β : Type} {f : Machine → Except Fault α} {g : α → Exec β}
    {m m' : Machine} {b : β} (h : (read f >>= g) m = (m', .ok b)) :
    ∃ a, f m = .ok a ∧ g a m = (m', .ok b) := by
  obtain ⟨m₁, a, hread, hg⟩ := bind_eq_ok h
  obtain ⟨rfl, ha⟩ := Prod.mk.inj hread
  exact ⟨a, ha, hg⟩

/-- Prints a text, if the sink takes it. -/
def print (text : String) : Exec Unit := fun m =>
  let (out, refusal) := m.out.write text
  (m.apply (.output out), refusal.elim (.ok ()) fun reason => .error (.output reason))

end Exec

end CellMachine
