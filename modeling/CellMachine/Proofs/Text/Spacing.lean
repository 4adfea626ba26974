import CellMachine.Proofs.Text.Words
import Mathlib.Data.List.DropRight

/-!
# CellMachine.Proofs.Text.Spacing

Texts as tokens and what stands around them.

* `Spaced`     — tokens with separators between them, and `spaced_iff`, the words of such a text.
* `IsTrimmed`  — a text without blanks at its ends, and `trim_append`, what `trim` leaves.
* `IsComment`  — the rest of a line that `uncomment` takes away.
-/

namespace CellMachine.Text

/-! ## Tokens and separators -/

/-- The text is the tokens with one or more separators between them; there may be separators at its
ends too. -/
inductive Spaced (p : Char → Bool) : List (List Char) → List Char → Prop where
  | blank {sep : List Char} (hsep : ∀ c ∈ sep, p c = true) : Spaced p [] sep
  | token {sep token rest : List Char} {tokens : List (List Char)}
      (hsep : ∀ c ∈ sep, p c = true) (hne : token ≠ []) (htoken : ∀ c ∈ token, p c = false)
      (hstart : ∀ c ∈ rest.head?, p c = true) (h : Spaced p tokens rest) :
      Spaced p (token :: tokens) (sep ++ (token ++ rest))

section Spaced

variable {p : Char → Bool} {cs : List Char} {tokens : List (List Char)}

/-- A token at the start of a text. -/
theorem Spaced.first {token rest : List Char} (hne : token ≠ []) (htoken : ∀ c ∈ token, p c = false)
    (hstart : ∀ c ∈ rest.head?, p c = true) (h : Spaced p tokens rest) :
    Spaced p (token :: tokens) (token ++ rest) :=
  @Spaced.token p [] token rest tokens nofun hne htoken hstart h

theorem words_of_forall (h : ∀ c ∈ cs, p c = true) : words p cs = [] := by
  calc words p cs
    _ = words p (cs ++ []) := by rw [List.append_nil]
    _ = words p [] := words_append_left h

theorem words_token_append {token rest : List Char} (hne : token ≠ [])
    (htoken : ∀ c ∈ token, p c = false) (hstart : ∀ c ∈ rest.head?, p c = true) :
    words p (token ++ rest) = token :: words p rest := by
  cases rest with
  | nil =>
    rw [List.append_nil, words_eq_singleton hne htoken]
    rfl
  | cons c rest =>
    have hc : p c = true := hstart c rfl
    rw [words_append_cons token rest hc, words_cons hc, words_eq_singleton hne htoken]
    rfl

theorem Spaced.words_eq (h : Spaced p tokens cs) : words p cs = tokens := by
  induction h with
  | blank hsep => exact words_of_forall hsep
  | token hsep hne htoken hstart _ ih =>
    rw [words_append_left hsep, words_token_append hne htoken hstart, ih]

/-- By induction on the text: a separator in front changes no token, and another character starts a
token or goes to the first one. -/
theorem exists_spaced (p : Char → Bool) (cs : List Char) : ∃ tokens, Spaced p tokens cs := by
  induction cs with
  | nil => exact ⟨[], .blank nofun⟩
  | cons c cs ih =>
    obtain ⟨tokens, h⟩ := ih
    cases hc : p c with
    | true =>
      cases h with
      | blank hsep => exact ⟨[], .blank (List.forall_mem_cons.mpr ⟨hc, hsep⟩)⟩
      | token hsep hne htoken hstart h =>
        exact ⟨_, .token (List.forall_mem_cons.mpr ⟨hc, hsep⟩) hne htoken hstart h⟩
    | false =>
      have hsingle : ∀ d ∈ [c], p d = false := List.forall_mem_singleton.mpr hc
      cases h with
      | blank hsep =>
        have hstart : ∀ d ∈ cs.head?, p d = true := fun d hd => hsep d (List.mem_of_head? hd)
        exact ⟨[[c]], .first (List.cons_ne_nil _ _) hsingle hstart (.blank hsep)⟩
      | @token sep token rest tokens hsep hne htoken hstart h =>
        cases sep with
        | nil =>
          exact ⟨(c :: token) :: tokens, .first (List.cons_ne_nil _ _)
            (List.forall_mem_cons.mpr ⟨hc, htoken⟩) hstart h⟩
        | cons d sep =>
          have hd : ∀ e ∈ (d :: sep ++ (token ++ rest)).head?, p e = true := by
            rintro e ⟨⟩
            exact hsep d List.mem_cons_self
          exact ⟨[c] :: token :: tokens, .first (List.cons_ne_nil _ _) hsingle hd
            (.token hsep hne htoken hstart h)⟩

theorem spaced_iff : Spaced p tokens cs ↔ words p cs = tokens := by
  constructor
  · exact Spaced.words_eq
  · rintro rfl
    obtain ⟨tokens, h⟩ := exists_spaced p cs
    rw [h.words_eq]
    exact h

/-- A map of characters that keeps separators apart from other characters maps the tokens. -/
theorem Spaced.map {f : Char → Char} (hf : ∀ c, p (f c) = p c) (h : Spaced p tokens cs) :
    Spaced p (tokens.map (List.map f)) (cs.map f) := by
  have hall : ∀ {b : Bool} {ds : List Char}, (∀ c ∈ ds, p c = b) → ∀ c ∈ ds.map f, p c = b := by
    intro b ds hds
    simpa [hf] using hds
  induction h with
  | blank hsep => exact .blank (hall hsep)
  | token hsep hne htoken hstart _ ih =>
    rw [List.map_append, List.map_append, List.map_cons]
    refine .token (hall hsep) ?_ (hall htoken) ?_ ih
    · simpa using hne
    · simpa [hf] using hstart

end Spaced

/-! ## Blanks at the ends -/

/-- There is no blank at either end. -/
structure IsTrimmed (cs : List Char) : Prop where
  head : ∀ c ∈ cs.head?, isBlank c = false
  last : ∀ c ∈ cs.getLast?, isBlank c = false

theorem IsTrimmed.map {f : Char → Char} (hf : ∀ c, isBlank (f c) = isBlank c) {cs : List Char}
    (h : IsTrimmed cs) : IsTrimmed (cs.map f) where
  head := by simpa [hf] using h.head
  last := by simpa [hf] using h.last

theorem dropWhile_of_head? {p : Char → Bool} {cs : List Char} (h : ∀ c ∈ cs.head?, p c = false) :
    cs.dropWhile p = cs := by
  cases cs with
  | nil => rfl
  | cons c cs =>
    have hc : p c = false := h c rfl
    simp [hc]

theorem not_of_mem_head?_dropWhile {p : Char → Bool} {cs : List Char} {c : Char}
    (h : c ∈ (cs.dropWhile p).head?) : p c = false := by
  rw [← List.find?_not_eq_head?_dropWhile] at h
  simpa using List.find?_some h

theorem dropWhile_append_cons {p : Char → Bool} {c : Char} (hc : p c = false) (xs ys : List Char) :
    (xs ++ c :: ys).dropWhile p = xs.dropWhile p ++ c :: ys := by
  induction xs with
  | nil => simp [hc]
  | cons x xs ih =>
    rw [List.cons_append, List.dropWhile_cons, List.dropWhile_cons, ih]
    split <;> rfl

theorem trimEnd_append_cons {c : Char} (hc : isBlank c = false) (xs ys : List Char) :
    trimEnd (xs ++ c :: ys) = xs ++ c :: trimEnd ys := by
  simp [trimEnd, dropWhile_append_cons hc]

/-- Blanks are taken away up to the first other character and from the last one on. -/
theorem trim_append_cons {c : Char} (hc : isBlank c = false) (xs ys : List Char) :
    trim (xs ++ c :: ys) = xs.dropWhile isBlank ++ c :: trimEnd ys := by
  rw [trim, dropWhile_append_cons hc, trimEnd_append_cons hc]

theorem trim_dropWhile (cs : List Char) : trim (cs.dropWhile isBlank) = trim cs := by
  rw [trim, List.dropWhile_idempotent, trim]

theorem isTrimmed_trim (cs : List Char) : IsTrimmed (trim cs) where
  head := by
    intro c hc
    have hstart : trim cs <+: cs.dropWhile isBlank := List.rdropWhile_prefix _ _
    obtain ⟨rest, hrest⟩ := hstart
    have hhead : c ∈ (cs.dropWhile isBlank).head? := by
      rw [← hrest, List.head?_append, Option.mem_def.mp hc]
      rfl
    exact not_of_mem_head?_dropWhile hhead
  last := by
    intro c hc
    obtain ⟨hne, rfl⟩ := List.mem_getLast?_eq_getLast hc
    exact eq_false_of_ne_true (List.rdropWhile_last_not isBlank (cs.dropWhile isBlank) hne)

theorem trim_append {front cs back : List Char} (hfront : ∀ c ∈ front, isBlank c = true)
    (h : IsTrimmed cs) (hback : ∀ c ∈ back, isBlank c = true) :
    trim (front ++ (cs ++ back)) = cs := by
  rw [trim, List.dropWhile_append_of_pos hfront]
  by_cases hne : cs = []
  · rw [hne, List.nil_append, List.dropWhile_eq_nil_iff.mpr hback]
    rfl
  · have hhead : (cs ++ back).head? = cs.head? := List.head?_append_of_ne_nil cs hne
    rw [dropWhile_of_head? (hhead ▸ h.head), trimEnd, List.reverse_append,
      List.dropWhile_append_of_pos (by simpa using hback), dropWhile_of_head? (by simpa using h.last),
      List.reverse_reverse]

/-! ## Comments -/

/-- The rest of a line from its first `;` on, or nothing. -/
def IsComment (comment : List Char) : Prop := ∀ c ∈ comment.head?, c = ';'

theorem IsComment.map {f : Char → Char} (hf : ∀ c, f c = ';' ↔ c = ';') {comment : List Char}
    (h : IsComment comment) : IsComment (comment.map f) := by
  simpa [IsComment, hf] using h

theorem uncomment_append {cs comment : List Char} (hcs : ';' ∉ cs) (h : IsComment comment) :
    uncomment (cs ++ comment) = cs := by
  cases comment with
  | nil => rw [List.append_nil, uncomment_of_not_mem hcs]
  | cons c comment =>
    obtain rfl : c = ';' := h c rfl
    exact uncomment_append_cons hcs comment

/-- Every line has a part in front of its comment. -/
theorem exists_comment (line : List Char) :
    ∃ comment, line = uncomment line ++ comment ∧ ';' ∉ uncomment line ∧ IsComment comment := by
  refine ⟨line.dropWhile (· ≠ ';'), List.takeWhile_append_dropWhile.symm, ?_, ?_⟩
  · intro hmem
    simpa using List.mem_takeWhile_imp hmem
  · intro c hc
    simpa using not_of_mem_head?_dropWhile hc

end CellMachine.Text
