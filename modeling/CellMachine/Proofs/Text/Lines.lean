import CellMachine.Text.Lines

/-!
# CellMachine.Proofs.Text.Lines

Texts taken apart at their first line feed.

* `lines_append_cons` — the line in front of it is the first line.
* `firstLines`        — a text up to a line feed, and `lines_firstLines`, which lines it has.
-/

namespace CellMachine.Text

variable {line cs : List Char}

theorem exists_line (cs : List Char) :
    '\n' ∉ cs ∨ ∃ line rest, cs = line ++ '\n' :: rest ∧ '\n' ∉ line := by
  by_cases h : '\n' ∈ cs
  · obtain ⟨line, rest, hcs, hline⟩ := List.eq_append_cons_of_mem h
    exact .inr ⟨line, rest, hcs, hline⟩
  · exact .inl h

theorem lines_of_not_mem (h : '\n' ∉ cs) : lines cs = if cs.isEmpty then [] else [cs] := by
  rw [lines, List.splitOn_eq_singleton h, closeLines]

theorem lines_append_cons (h : '\n' ∉ line) (rest : List Char) :
    lines (line ++ '\n' :: rest) = dropReturn line :: lines rest := by
  have hsplit : (line ++ '\n' :: rest).splitOn '\n' = line :: rest.splitOn '\n' := by
    have hfeed : ('\n' == '\n') = true := rfl
    rw [List.splitOn, List.splitOnP_append_cons (p := (· == '\n')) _ _ hfeed, ← List.splitOn,
      List.splitOn_eq_singleton h]
    rfl
  obtain ⟨next, others, hnext⟩ :=
    List.exists_cons_of_ne_nil (List.splitOnP_ne_nil (· == '\n') rest)
  rw [lines, hsplit, lines, List.splitOn, hnext, closeLines]

/-- The first `n` lines of a text with the line feeds that end them. -/
def firstLines : Nat → List Char → List Char
  | 0, _ => []
  | _ + 1, [] => []
  | n + 1, c :: cs => c :: firstLines (if c = '\n' then n else n + 1) cs

theorem firstLines_append (h : '\n' ∉ line) (n : Nat) (rest : List Char) :
    firstLines (n + 1) (line ++ rest) = line ++ firstLines (n + 1) rest := by
  induction line with
  | nil => rfl
  | cons c line ih =>
    have hc : c ≠ '\n' := fun hc => h (hc ▸ List.mem_cons_self)
    rw [List.cons_append, firstLines, if_neg hc, ih (fun hmem => h (List.mem_cons_of_mem c hmem)),
      List.cons_append]

/-- By induction on the number of lines, each time cutting at the first line feed. -/
theorem lines_firstLines (n : Nat) (cs : List Char) :
    lines (firstLines n cs) = (lines cs).take n := by
  induction n generalizing cs with
  | zero =>
    rw [firstLines, List.take_zero]
    rfl
  | succ n ih =>
    rcases exists_line cs with hcs | ⟨line, rest, rfl, hline⟩
    · have hall := firstLines_append hcs n []
      rw [List.append_nil] at hall
      rw [hall, firstLines, List.append_nil, lines_of_not_mem hcs]
      split
      · rw [List.take_nil]
      · rw [List.take_succ_cons, List.take_nil]
    · rw [firstLines_append hline, firstLines, if_pos rfl, lines_append_cons hline,
        lines_append_cons hline, List.take_succ_cons, ih]

end CellMachine.Text
