import CellMachine.Proofs.Text.Lines
import CellMachine.Proofs.Text.Words

/-!
# CellMachine.Proofs.Text.Scan

The words of a text, read from its start to its end without taking it apart into lines first.

* `Scan`              — the words outside comments, each with the number of its line.
* `exists_scan`       — every text has such words, and `Scan.eq_numberedWords`, no others.
* `numberedWords`     — the same words, line by line.
-/

namespace CellMachine.Text

/-- The words of a text in the order of the text, each with the number of its line; the text starts
on line `n`. A word goes on to a blank, a comment or the end of the text, and a comment to the end
of its line. -/
inductive Scan : Nat → List Char → List (Nat × List Char) → Prop where
  | done {n : Nat} : Scan n [] []
  | feed {n : Nat} {cs : List Char} {ws : List (Nat × List Char)} (h : Scan (n + 1) cs ws) :
      Scan n ('\n' :: cs) ws
  | blank {n : Nat} {c : Char} {cs : List Char} {ws : List (Nat × List Char)}
      (hc : isBlank c = true) (hfeed : c ≠ '\n') (h : Scan n cs ws) : Scan n (c :: cs) ws
  | comment {n : Nat} {comment cs : List Char} {ws : List (Nat × List Char)}
      (hcomment : '\n' ∉ comment) (hend : ∀ c ∈ cs.head?, c = '\n') (h : Scan n cs ws) :
      Scan n (';' :: (comment ++ cs)) ws
  | word {n : Nat} {word cs : List Char} {ws : List (Nat × List Char)} (hne : word ≠ [])
      (hword : ∀ c ∈ word, isBlank c = false ∧ c ≠ ';')
      (hend : ∀ c ∈ cs.head?, isBlank c = true ∨ c = ';') (h : Scan n cs ws) :
      Scan n (word ++ cs) ((n, word) :: ws)

/-! ## Every text has words -/

theorem exists_span (p : Char → Bool) (cs : List Char) :
    ∃ front back, cs = front ++ back ∧ (∀ c ∈ front, p c = true) ∧
      ∀ c ∈ back.head?, p c = false := by
  refine ⟨cs.takeWhile p, cs.dropWhile p, List.takeWhile_append_dropWhile.symm,
    fun _ hc => List.mem_takeWhile_imp hc, fun c hc => ?_⟩
  have hnot := List.head?_dropWhile_not p cs
  rw [Option.mem_def.mp hc] at hnot
  exact hnot

/-- By induction on the length of the text: each of the rules takes at least one character. -/
theorem exists_scan (n : Nat) (cs : List Char) : ∃ ws, Scan n cs ws := by
  match cs with
  | [] => exact ⟨[], .done⟩
  | c :: cs =>
    by_cases hfeed : c = '\n'
    · obtain ⟨ws, h⟩ := exists_scan (n + 1) cs
      exact ⟨ws, hfeed ▸ .feed h⟩
    by_cases hblank : isBlank c = true
    · obtain ⟨ws, h⟩ := exists_scan n cs
      exact ⟨ws, .blank hblank hfeed h⟩
    by_cases hmark : c = ';'
    · obtain ⟨comment, rest, hcs, hcomment, hend⟩ := exists_span (· != '\n') cs
      have hlen := congrArg List.length hcs
      obtain ⟨ws, h⟩ := exists_scan n rest
      rw [hmark, hcs]
      refine ⟨ws, .comment (fun hmem => ?_) (fun d hd => ?_) h⟩
      · cases hcomment _ hmem
      · simpa using hend d hd
    · obtain ⟨word, rest, hcs, hword, hend⟩ := exists_span (fun d => !isBlank d && d != ';') cs
      have hlen := congrArg List.length hcs
      obtain ⟨ws, h⟩ := exists_scan n rest
      rw [hcs]
      refine ⟨(n, c :: word) :: ws,
        @Scan.word n (c :: word) rest ws (List.cons_ne_nil c word) ?_ (fun d hd => ?_) h⟩
      · refine List.forall_mem_cons.mpr ⟨⟨Bool.eq_false_iff.mpr hblank, hmark⟩, fun d hd => ?_⟩
        simpa using hword d hd
      · have hd := hend d hd
        simp only [Bool.and_eq_false_iff, Bool.not_eq_false', bne_eq_false_iff_eq] at hd
        exact hd
termination_by cs.length
decreasing_by
  · exact Nat.lt_succ_self _
  · exact Nat.lt_succ_self _
  · rw [List.length_append] at hlen
    rw [List.length_cons]
    omega
  · rw [List.length_append] at hlen
    rw [List.length_cons]
    omega

/-! ## The words of lines -/

/-- The words of a line in front of its comment. -/
def lineWords (line : List Char) : List (List Char) := words isBlank (uncomment line)

/-- The words of lines with the numbers of the lines, of which the first one is `n`. -/
def numberedWords (n : Nat) : List (List Char) → List (Nat × List Char)
  | [] => []
  | line :: lines => (lineWords line).map (n, ·) ++ numberedWords (n + 1) lines

variable {n : Nat} {c : Char} {line cs word : List Char}

theorem uncomment_cons_of_isBlank (h : isBlank c = true) :
    uncomment (c :: line) = c :: uncomment line := by
  refine List.takeWhile_cons_of_pos (decide_eq_true ?_)
  rintro rfl
  revert h
  decide

theorem lineWords_cons_of_isBlank (h : isBlank c = true) :
    lineWords (c :: line) = lineWords line := by
  rw [lineWords, uncomment_cons_of_isBlank h, words_cons h, lineWords]

theorem lineWords_append (hne : word ≠ []) (hword : ∀ c ∈ word, isBlank c = false ∧ c ≠ ';')
    (hend : ∀ c ∈ line.head?, isBlank c = true ∨ c = ';') :
    lineWords (word ++ line) = word :: lineWords line := by
  have hfront : uncomment (word ++ line) = word ++ uncomment line :=
    List.takeWhile_append_of_pos fun c hc => decide_eq_true (hword c hc).2
  have hsingle := words_eq_singleton (p := isBlank) hne fun c hc => (hword c hc).1
  rw [lineWords, hfront, lineWords]
  match line, hend with
  | [], _ => rw [uncomment, List.takeWhile_nil, List.append_nil, hsingle]; rfl
  | c :: line, hend =>
    rcases hend c rfl with hblank | rfl
    · rw [uncomment_cons_of_isBlank hblank, words_append_cons _ _ hblank, hsingle,
        words_cons hblank]
      rfl
    · exact (congrArg (words isBlank) (List.append_nil word)).trans hsingle

/-- The carriage return at the end of a line is a blank or a part of the comment. -/
theorem lineWords_dropReturn (line : List Char) : lineWords (dropReturn line) = lineWords line := by
  unfold dropReturn
  split
  · rename_i hlast
    obtain ⟨front, rfl⟩ := List.getLast?_eq_some_iff.mp hlast
    rw [List.dropLast_concat]
    by_cases hmark : ';' ∈ front
    · obtain ⟨text, comment, rfl, htext⟩ := List.eq_append_cons_of_mem hmark
      rw [lineWords, lineWords, List.append_assoc, List.cons_append, uncomment_append_cons htext,
        uncomment_append_cons htext]
    · have hmark' : ';' ∉ front ++ ['\r'] := by
        rw [List.mem_append, List.mem_singleton, not_or]
        exact ⟨hmark, by decide⟩
      rw [lineWords, lineWords, uncomment_of_not_mem hmark, uncomment_of_not_mem hmark',
        words_append_right (List.forall_mem_singleton.mpr rfl)]
  · rfl

/-! ## Scanning and lines -/

/-- A text is the end of a line and what comes after it, whatever the line starts with. -/
theorem exists_line_end (n : Nat) (cs : List Char) :
    ∃ line later, (∀ c ∈ line.head?, c ∈ cs.head?) ∧ '\n' ∉ line ∧ ∀ front, '\n' ∉ front →
      numberedWords n (lines (front ++ cs)) = (lineWords (front ++ line)).map (n, ·) ++ later := by
  rcases exists_line cs with hcs | ⟨line, rest, rfl, hline⟩
  · refine ⟨cs, [], fun _ hc => hc, hcs, fun front hfront => ?_⟩
    rw [lines_of_not_mem (by rw [List.mem_append, not_or]; exact ⟨hfront, hcs⟩)]
    split
    · rename_i hempty
      rw [List.isEmpty_iff.mp hempty]
      rfl
    · rfl
  · refine ⟨line, numberedWords (n + 1) (lines rest), ?_, hline, fun front hfront => ?_⟩
    · cases line with
      | nil => exact nofun
      | cons c line => exact fun _ hc => hc
    · have hall : '\n' ∉ front ++ line := by
        rw [List.mem_append, not_or]
        exact ⟨hfront, hline⟩
      rw [← List.append_assoc, lines_append_cons hall, numberedWords, lineWords_dropReturn]

/-- Characters in front of a text on its first line add the words that they add to that line. -/
theorem numberedWords_append (front : List Char) (ws : List (List Char)) (hfront : '\n' ∉ front)
    (h : ∀ line, (∀ c ∈ line.head?, c ∈ cs.head?) → '\n' ∉ line →
      lineWords (front ++ line) = ws ++ lineWords line) :
    numberedWords n (lines (front ++ cs)) = ws.map (n, ·) ++ numberedWords n (lines cs) := by
  obtain ⟨line, later, hhead, hline, hwords⟩ := exists_line_end n cs
  have hcs := hwords [] List.not_mem_nil
  rw [List.nil_append, List.nil_append] at hcs
  rw [hwords front hfront, hcs, h line hhead hline, List.map_append, List.append_assoc]

/-- The words of a text are those of its lines. By induction on the scan. -/
theorem Scan.eq_numberedWords {ws : List (Nat × List Char)} (h : Scan n cs ws) :
    ws = numberedWords n (lines cs) := by
  induction h with
  | done => rfl
  | @feed n cs ws _ ih =>
    have hlines : lines ('\n' :: cs) = [] :: lines cs := lines_append_cons List.not_mem_nil cs
    rw [hlines, ih]
    rfl
  | @blank n c cs ws hc hfeed _ ih =>
    refine ih.trans (numberedWords_append [c] [] ?_ fun line _ _ => ?_).symm
    · rw [List.mem_singleton]
      exact hfeed.symm
    · exact lineWords_cons_of_isBlank hc
  | @comment n comment cs ws hcomment hend _ ih =>
    refine ih.trans
      (numberedWords_append (';' :: comment) [] ?_ fun line hhead hline => ?_).symm
    · rw [List.mem_cons, not_or]
      exact ⟨by decide, hcomment⟩
    · cases line with
      | nil => rfl
      | cons c line =>
        rw [hend c (hhead c rfl)] at hline
        exact absurd List.mem_cons_self hline
  | @word n word cs ws hne hword hend _ ih =>
    rw [numberedWords_append word [word] ?_ fun line hhead _ => ?_, ← ih]
    · rfl
    · intro hmem
      cases (hword _ hmem).1
    · exact lineWords_append hne hword fun c hc => hend c (hhead c hc)

end CellMachine.Text
