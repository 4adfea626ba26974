import CellMachine.Text.Blank
import CellMachine.Text.Lines
import Mathlib.Data.List.TakeWhile

/-!
# CellMachine.Proofs.Text.Words

Texts that are put together from words or lines come apart into them again.

* `words_intercalate` — words with separators between them.
* `words_trim`        — blanks at the ends of a text add no words.
* `lines_intercalate` — lines with line feeds between them.
* `lines_flatMap`     — lines with a line feed behind each.
-/

namespace CellMachine.Text

section Words

variable {p : Char → Bool} {xs ys sep : List Char} {ws : List (List Char)}

theorem words_append_cons (xs ys : List Char) {c : Char} (hc : p c = true) :
    words p (xs ++ c :: ys) = words p xs ++ words p ys := by
  simp only [words, List.splitOnP_append_cons xs ys hc, List.filter_append]

theorem words_cons {c : Char} (hc : p c = true) : words p (c :: ys) = words p ys :=
  words_append_cons [] ys hc

theorem words_eq_singleton (hne : xs ≠ []) (h : ∀ c ∈ xs, p c = false) : words p xs = [xs] := by
  rw [words, List.splitOnP_eq_singleton h, List.filter_cons_of_pos]
  · rfl
  · rw [List.isEmpty_eq_false_iff.mpr hne]
    rfl

/-- Separators at the start of a text add no words. -/
theorem words_append_left (hsep : ∀ c ∈ sep, p c = true) : words p (sep ++ ys) = words p ys := by
  induction sep with
  | nil => rfl
  | cons c sep ih =>
    rw [List.cons_append, words_cons (hsep c List.mem_cons_self)]
    exact ih fun d hd => hsep d (List.mem_cons_of_mem c hd)

/-- A text comes apart where there are separators. -/
theorem words_append_append (hne : sep ≠ []) (hsep : ∀ c ∈ sep, p c = true) :
    words p (xs ++ (sep ++ ys)) = words p xs ++ words p ys := by
  cases sep with
  | nil => exact absurd rfl hne
  | cons c sep =>
    rw [List.cons_append, words_append_cons xs _ (hsep c List.mem_cons_self),
      words_append_left fun d hd => hsep d (List.mem_cons_of_mem c hd)]

theorem words_append_right (hsep : ∀ c ∈ sep, p c = true) : words p (xs ++ sep) = words p xs := by
  by_cases hne : sep = []
  · rw [hne, List.append_nil]
  · calc
      words p (xs ++ sep) = words p (xs ++ (sep ++ [])) := by rw [List.append_nil]
      _ = words p xs ++ words p [] := words_append_append hne hsep
      _ = words p xs := List.append_nil _

theorem mem_intercalate {ls : List (List Char)} {c : Char} (h : c ∈ sep.intercalate ls) :
    c ∈ sep ∨ ∃ l ∈ ls, c ∈ l := by
  induction ls with
  | nil => cases h
  | cons l ls ih =>
    cases ls with
    | nil =>
      rw [List.intercalate_singleton] at h
      exact .inr ⟨l, List.mem_cons_self, h⟩
    | cons k ls =>
      rw [List.intercalate_cons_cons, List.mem_append, List.mem_append] at h
      rcases h with (h | h) | h
      · exact .inr ⟨l, List.mem_cons_self, h⟩
      · exact .inl h
      · rcases ih h with h | ⟨j, hj, h⟩
        · exact .inl h
        · exact .inr ⟨j, List.mem_cons_of_mem l hj, h⟩

theorem words_intercalate (hne : sep ≠ []) (hsep : ∀ c ∈ sep, p c = true)
    (hws : ∀ w ∈ ws, w ≠ [] ∧ ∀ c ∈ w, p c = false) : words p (sep.intercalate ws) = ws := by
  induction ws with
  | nil => rfl
  | cons w ws ih =>
    have hw := hws w List.mem_cons_self
    have ih := ih fun v hv => hws v (List.mem_cons_of_mem w hv)
    cases ws with
    | nil =>
      rw [List.intercalate_singleton]
      exact words_eq_singleton hw.1 hw.2
    | cons v ws =>
      rw [List.intercalate_cons_cons, List.append_assoc, words_append_append hne hsep,
        words_eq_singleton hw.1 hw.2, ih]
      rfl

end Words

/-- A text is its trimmed form and blanks at its end. -/
theorem exists_trimEnd_append (cs : List Char) :
    ∃ blanks, cs = trimEnd cs ++ blanks ∧ ∀ c ∈ blanks, isBlank c = true := by
  refine ⟨(cs.reverse.takeWhile isBlank).reverse, ?_, ?_⟩
  · rw [trimEnd, ← List.reverse_append, List.takeWhile_append_dropWhile, List.reverse_reverse]
  · intro c hc
    exact List.mem_takeWhile_imp (List.mem_reverse.mp hc)

/-- A text is blanks, its trimmed form and blanks. -/
theorem exists_append_trim (cs : List Char) :
    ∃ front back, cs = front ++ (trim cs ++ back) ∧
      (∀ c ∈ front, isBlank c = true) ∧ ∀ c ∈ back, isBlank c = true := by
  obtain ⟨back, hback, hb⟩ := exists_trimEnd_append (cs.dropWhile isBlank)
  refine ⟨cs.takeWhile isBlank, back, ?_, fun c hc => List.mem_takeWhile_imp hc, hb⟩
  rw [trim, ← hback, List.takeWhile_append_dropWhile]

theorem mem_of_mem_trim {c : Char} {cs : List Char} (h : c ∈ trim cs) : c ∈ cs := by
  obtain ⟨front, back, hcs, -, -⟩ := exists_append_trim cs
  rw [hcs]
  simp only [List.mem_append, h, true_or, or_true]

/-- Where blanks separate words, blanks at the ends of a text add none. -/
theorem words_trim {p : Char → Bool} (hp : ∀ c, isBlank c = true → p c = true) (cs : List Char) :
    words p (trim cs) = words p cs := by
  obtain ⟨front, back, hcs, hf, hb⟩ := exists_append_trim cs
  calc words p (trim cs)
    _ = words p (trim cs ++ back) := (words_append_right fun c hc => hp c (hb c hc)).symm
    _ = words p (front ++ (trim cs ++ back)) :=
        (words_append_left fun c hc => hp c (hf c hc)).symm
    _ = words p cs := by rw [← hcs]

theorem forall_ne_of_not_mem {a : Char} {cs : List Char} (h : a ∉ cs) :
    ∀ c ∈ cs, decide (c ≠ a) = true := by
  intro c hc
  refine decide_eq_true fun heq => h ?_
  rw [← heq]
  exact hc

theorem uncomment_of_not_mem {cs : List Char} (h : ';' ∉ cs) : uncomment cs = cs := by
  rw [uncomment, List.takeWhile_eq_self_iff]
  exact forall_ne_of_not_mem h

theorem uncomment_append_cons {cs : List Char} (h : ';' ∉ cs) (comment : List Char) :
    uncomment (cs ++ ';' :: comment) = cs := by
  rw [uncomment, List.takeWhile_append_of_pos (forall_ne_of_not_mem h), List.takeWhile_cons_of_neg,
    List.append_nil]
  exact Bool.false_ne_true

theorem closeLines_of_forall {ls : List (List Char)}
    (h : ∀ l ∈ ls, l ≠ [] ∧ l.getLast? ≠ some '\r') : closeLines ls = ls := by
  induction ls with
  | nil => rfl
  | cons l ls ih =>
    have hl := h l List.mem_cons_self
    have ih := ih fun k hk => h k (List.mem_cons_of_mem l hk)
    cases ls with
    | nil => rw [closeLines, List.isEmpty_eq_false_iff.mpr hl.1, if_neg Bool.false_ne_true]
    | cons k ls => rw [closeLines, ih, dropReturn, if_neg hl.2]

/-- Lines with line feeds between them are the lines of the text. -/
theorem lines_intercalate {ls : List (List Char)}
    (h : ∀ l ∈ ls, l ≠ [] ∧ l.getLast? ≠ some '\r') (hfeed : ∀ l ∈ ls, '\n' ∉ l) :
    lines (['\n'].intercalate ls) = ls := by
  by_cases hne : ls = []
  · rw [hne]
    rfl
  · rw [lines, List.splitOn_intercalate '\n' hfeed hne, closeLines_of_forall h]

theorem intercalate_append_nil (sep : List Char) (ls : List (List Char)) :
    sep.intercalate (ls ++ [[]]) = ls.flatMap (· ++ sep) := by
  induction ls with
  | nil => rfl
  | cons l ls ih =>
    obtain ⟨k, ks, hk⟩ := List.exists_cons_of_ne_nil (List.append_ne_nil_of_right_ne_nil ls
      (List.cons_ne_nil [] []))
    rw [List.cons_append, List.flatMap_cons, ← ih, hk, List.intercalate_cons_cons]

theorem closeLines_append_nil {ls : List (List Char)} (h : ∀ l ∈ ls, l.getLast? ≠ some '\r') :
    closeLines (ls ++ [[]]) = ls := by
  induction ls with
  | nil => rfl
  | cons l ls ih =>
    have ih := ih fun k hk => h k (List.mem_cons_of_mem l hk)
    have hl : dropReturn l = l := if_neg (h l List.mem_cons_self)
    cases ls with
    | nil => exact congrArg (· :: []) hl
    | cons k ks => exact congrArg₂ (· :: ·) hl ih

/-- Lines with a line feed behind each are the lines of the text; they may be empty. -/
theorem lines_flatMap {ls : List (List Char)} (h : ∀ l ∈ ls, l.getLast? ≠ some '\r')
    (hfeed : ∀ l ∈ ls, '\n' ∉ l) : lines (ls.flatMap (· ++ ['\n'])) = ls := by
  have hfeed : ∀ l ∈ ls ++ [[]], '\n' ∉ l := by
    intro l hl
    rcases List.mem_append.mp hl with hl | hl
    · exact hfeed l hl
    · rw [List.mem_singleton.mp hl]
      nofun
  rw [← intercalate_append_nil, lines, List.splitOn_intercalate '\n' hfeed
    (List.append_ne_nil_of_right_ne_nil ls (List.cons_ne_nil [] [])), closeLines_append_nil h]

end CellMachine.Text
