import Mathlib.Data.List.Forall2

/-!
# CellMachine.Proofs.Result

Computations that may fail: when they give a result, and which.
-/

namespace CellMachine

variable {ε α β : Type}

theorem bind_eq_ok_iff {x : Except ε α} {f : α → Except ε β} {b : β} :
    x >>= f = .ok b ↔ ∃ a, x = .ok a ∧ f a = .ok b := by
  cases x with
  | error e => exact ⟨nofun, nofun⟩
  | ok a =>
    constructor
    · intro h
      exact ⟨a, rfl, h⟩
    · rintro ⟨_, ⟨⟩, h⟩
      exact h

theorem bind_eq_error_iff {x : Except ε α} {f : α → Except ε β} {e : ε} :
    x >>= f = .error e ↔ x = .error e ∨ ∃ a, x = .ok a ∧ f a = .error e := by
  cases x with
  | error e' =>
    constructor
    · rintro ⟨⟩
      exact .inl rfl
    · rintro (⟨⟨⟩⟩ | ⟨_, ⟨⟩, _⟩)
      rfl
  | ok a =>
    constructor
    · intro h
      exact .inr ⟨a, rfl, h⟩
    · rintro (⟨⟨⟩⟩ | ⟨_, ⟨⟩, h⟩)
      exact h

theorem map_eq_ok_iff {x : Except ε α} {f : α → β} {b : β} :
    x.map f = .ok b ↔ ∃ a, x = .ok a ∧ f a = b := by
  cases x with
  | error e => exact ⟨nofun, nofun⟩
  | ok a =>
    constructor
    · intro h
      exact ⟨a, rfl, Except.ok.inj h⟩
    · rintro ⟨_, ⟨⟩, h⟩
      exact congrArg _ h

theorem map_eq_error_iff {x : Except ε α} {f : α → β} {e : ε} :
    x.map f = .error e ↔ x = .error e := by
  cases x with
  | error e' => simp only [Except.map, Except.error.injEq]
  | ok a => exact ⟨nofun, nofun⟩

theorem mapError_eq_ok_iff {ε' : Type} {x : Except ε α} {f : ε → ε'} {a : α} :
    x.mapError f = .ok a ↔ x = .ok a := by
  cases x with
  | error e => exact ⟨nofun, nofun⟩
  | ok b => simp only [Except.mapError, Except.ok.injEq]

theorem mapError_eq_error_iff {ε' : Type} {x : Except ε α} {f : ε → ε'} {e : ε'} :
    x.mapError f = .error e ↔ ∃ e', x = .error e' ∧ f e' = e := by
  cases x with
  | error e' =>
    constructor
    · rintro ⟨⟩
      exact ⟨e', rfl, rfl⟩
    · rintro ⟨_, ⟨⟩, rfl⟩
      rfl
  | ok a => exact ⟨nofun, nofun⟩

theorem mapError_map {ε' : Type} (x : Except ε α) (f : α → β) (g : ε → ε') :
    (x.map f).mapError g = (x.mapError g).map f := by
  cases x <;> rfl

/-- A list is worked off if each of its members is. -/
theorem mapM_eq_ok_iff {f : α → Except ε β} {xs : List α} {ys : List β} :
    xs.mapM f = .ok ys ↔ List.Forall₂ (fun x y => f x = .ok y) xs ys := by
  induction xs generalizing ys with
  | nil =>
    rw [List.mapM_nil, List.forall₂_nil_left_iff]
    exact ⟨fun h => (Except.ok.inj h).symm, fun h => congrArg _ h.symm⟩
  | cons x xs ih =>
    rw [List.mapM_cons, List.forall₂_cons_left_iff]
    constructor
    · intro h
      obtain ⟨y, hy, h⟩ := bind_eq_ok_iff.mp h
      obtain ⟨ys', hys, h⟩ := bind_eq_ok_iff.mp h
      cases h
      exact ⟨y, ys', hy, ih.mp hys, rfl⟩
    · rintro ⟨y, ys', hy, hys, rfl⟩
      exact bind_eq_ok_iff.mpr ⟨y, hy, bind_eq_ok_iff.mpr ⟨ys', ih.mpr hys, rfl⟩⟩

/-- A list is not worked off because of the first of its members that is not. -/
theorem mapM_eq_error_iff {f : α → Except ε β} {xs : List α} {e : ε} :
    xs.mapM f = .error e ↔ ∃ front x back, xs = front ++ x :: back ∧
      (∀ y ∈ front, ∃ b, f y = .ok b) ∧ f x = .error e := by
  induction xs with
  | nil =>
    constructor
    · nofun
    · rintro ⟨front, x, back, hxs, -⟩
      exact absurd hxs.symm (List.append_ne_nil_of_right_ne_nil _ (List.cons_ne_nil _ _))
  | cons x xs ih =>
    rw [List.mapM_cons, bind_eq_error_iff]
    constructor
    · rintro (hx | ⟨b, hb, h⟩)
      · exact ⟨[], x, xs, rfl, nofun, hx⟩
      · rcases bind_eq_error_iff.mp h with h | ⟨_, -, ⟨⟩⟩
        obtain ⟨front, y, back, rfl, hfront, hy⟩ := ih.mp h
        exact ⟨x :: front, y, back, rfl, List.forall_mem_cons.mpr ⟨⟨b, hb⟩, hfront⟩, hy⟩
    · rintro ⟨front, y, back, hxs, hfront, hy⟩
      cases front with
      | nil =>
        cases hxs
        exact .inl hy
      | cons z front =>
        cases hxs
        obtain ⟨⟨b, hb⟩, hfront⟩ := List.forall_mem_cons.mp hfront
        refine .inr ⟨b, hb, bind_eq_error_iff.mpr (.inl ?_)⟩
        exact ih.mpr ⟨front, y, back, rfl, hfront, hy⟩

/-! ## Computations that come out alike -/

/-- Both give the same result, or both fail with errors that are related. -/
inductive SameOutcome (R : ε → ε → Prop) : Except ε α → Except ε α → Prop where
  | ok (a : α) : SameOutcome R (.ok a) (.ok a)
  | error {e e' : ε} (h : R e e') : SameOutcome R (.error e) (.error e')

namespace SameOutcome

variable {R : ε → ε → Prop} {x x' : Except ε α}

theorem refl (hR : ∀ e, R e e) (x : Except ε α) : SameOutcome R x x := by
  cases x with
  | error e => exact .error (hR e)
  | ok a => exact .ok a

theorem bind {f f' : α → Except ε β} (h : SameOutcome R x x')
    (hf : ∀ a, SameOutcome R (f a) (f' a)) : SameOutcome R (x >>= f) (x' >>= f') := by
  cases h with
  | ok a => exact hf a
  | error h => exact .error h

theorem map {f : α → β} (h : SameOutcome R x x') : SameOutcome R (x.map f) (x'.map f) := by
  cases h with
  | ok a => exact .ok (f a)
  | error h => exact .error h

theorem mapError {ε' : Type} {S : ε' → ε' → Prop} {f : ε → ε'} (h : SameOutcome R x x')
    (hf : ∀ {e e'}, R e e' → S (f e) (f e')) : SameOutcome S (x.mapError f) (x'.mapError f) := by
  cases h with
  | ok a => exact .ok a
  | error h => exact .error (hf h)

/-- Lists are worked off alike if their members are, one by one. -/
theorem mapM {f : α → Except ε β} {xs xs' : List α}
    (h : List.Forall₂ (fun x x' => SameOutcome R (f x) (f x')) xs xs') :
    SameOutcome R (xs.mapM f) (xs'.mapM f) := by
  induction h with
  | nil => exact .ok []
  | cons hx _ ih =>
    rw [List.mapM_cons, List.mapM_cons]
    exact hx.bind fun b => ih.bind fun bs => .ok (b :: bs)

end SameOutcome

end CellMachine
