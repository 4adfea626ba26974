import CellMachine.Proofs.Assembly.Letters
import CellMachine.Proofs.Text.Spacing

/-!
# CellMachine.Proofs.Assembly.Presentation

How a line is presented does not matter to the assembler: its comment, the blanks around it, what
separates its tokens, and the case of its letters.

* `Presents`          — a line with a label and tokens, and `presents_iff`, what is read of it.
* `Restyled`          — lines with the same label and tokens, in letters of either case.
* `addLines_alike`    — the first pass over such lines.
* `assemble_restyled` — sources of such lines assemble to the same cells, or to the same error.
-/

namespace CellMachine.Assembly

/-! ## Lines -/

/-- The line has a label or none, and tokens. There may be blanks around the label, blanks and
commas around the tokens, and a comment at the end. -/
inductive Presents : List Char → Option (List Char) → List (List Char) → Prop where
  | unlabelled {text comment : List Char} {tokens : List (List Char)} (hcolon : ':' ∉ text)
      (hsemicolon : ';' ∉ text) (hcomment : Text.IsComment comment)
      (h : Text.Spaced isSeparator tokens text) : Presents (text ++ comment) none tokens
  | labelled {front label back text comment : List Char} {tokens : List (List Char)}
      (hfront : ∀ c ∈ front, Text.isBlank c = true) (hlabel : Text.IsTrimmed label)
      (hback : ∀ c ∈ back, Text.isBlank c = true) (hcolon : ':' ∉ label) (hsemicolon : ';' ∉ label)
      (hsemicolon' : ';' ∉ text) (hcomment : Text.IsComment comment)
      (h : Text.Spaced isSeparator tokens text) :
      Presents (front ++ (label ++ back) ++ ':' :: text ++ comment) (some label) tokens

variable {line line' : List Char} {label label' : Option (List Char)}
  {tokens tokens' : List (List Char)}

theorem words_trimEnd (text : List Char) :
    Text.words isSeparator (Text.trimEnd text) = Text.words isSeparator text := by
  obtain ⟨blanks, htext, hblanks⟩ := Text.exists_trimEnd_append text
  conv_rhs => rw [htext]
  exact (Text.words_append_right fun c hc => isSeparator_of_isBlank c (hblanks c hc)).symm

theorem splitLabel_trim_append {front text : List Char} (h : ':' ∉ front) :
    splitLabel (Text.trim (front ++ ':' :: text)) =
      (some (Text.trim front), Text.trimEnd text) := by
  have hcolon : ':' ∉ front.dropWhile Text.isBlank :=
    fun hmem => h ((List.dropWhile_sublist _).subset hmem)
  rw [Text.trim_append_cons (by decide), splitLabel_append hcolon, Text.trim_dropWhile]

theorem not_mem_of_isBlank {cs : List Char} {c : Char} (h : ∀ d ∈ cs, Text.isBlank d = true)
    (hc : Text.isBlank c = false) : c ∉ cs := by
  intro hmem
  rw [h c hmem] at hc
  cases hc

theorem Presents.splitLabel_eq (h : Presents line label tokens) :
    ∃ text, splitLabel (Text.trim (Text.uncomment line)) = (label, text) ∧
      Text.words isSeparator text = tokens := by
  cases h with
  | @unlabelled text comment _ hcolon hsemicolon hcomment h =>
    refine ⟨Text.trim text, ?_, ?_⟩
    · rw [Text.uncomment_append hsemicolon hcomment]
      exact splitLabel_of_not_mem fun hmem => hcolon (Text.mem_of_mem_trim hmem)
    · rw [Text.words_trim isSeparator_of_isBlank, h.words_eq]
  | @labelled front label back text comment _ hfront hlabel hback hcolon hsemicolon hsemicolon'
      hcomment h =>
    have hnot : ∀ {c}, Text.isBlank c = false → c ∉ label → c ∉ front ++ (label ++ back) := by
      intro c hc hmem
      simp [not_mem_of_isBlank hfront hc, not_mem_of_isBlank hback hc, hmem]
    have hcode : ';' ∉ front ++ (label ++ back) ++ ':' :: text := by
      rw [List.mem_append, List.mem_cons, not_or, not_or]
      exact ⟨hnot (by decide) hsemicolon, by decide, hsemicolon'⟩
    refine ⟨Text.trimEnd text, ?_, ?_⟩
    · rw [Text.uncomment_append hcode hcomment, splitLabel_trim_append (hnot (by decide) hcolon),
        Text.trim_append hfront hlabel hback]
    · rw [words_trimEnd, h.words_eq]

/-- Label and tokens are what the assembler reads of a line. -/
theorem presents_iff : Presents line label tokens ↔
    ∃ text, splitLabel (Text.trim (Text.uncomment line)) = (label, text) ∧
      Text.words isSeparator text = tokens := by
  constructor
  · exact Presents.splitLabel_eq
  · rintro ⟨text, hsplit, hwords⟩
    obtain ⟨comment, hline, hsemicolon, hcomment⟩ := Text.exists_comment line
    generalize Text.uncomment line = code at hline hsemicolon hsplit
    subst hline
    by_cases hcolon : ':' ∈ code
    · obtain ⟨front, rest, rfl, hfront⟩ := List.eq_append_cons_of_mem hcolon
      rw [splitLabel_trim_append hfront] at hsplit
      cases hsplit
      rw [List.mem_append, List.mem_cons, not_or, not_or] at hsemicolon
      rw [words_trimEnd] at hwords
      obtain ⟨blanks, blanks', hblanks, hb, hb'⟩ := Text.exists_append_trim front
      have hpresents := Presents.labelled hb (Text.isTrimmed_trim front) hb'
        (fun hmem => hfront (Text.mem_of_mem_trim hmem))
        (fun hmem => hsemicolon.1 (Text.mem_of_mem_trim hmem)) hsemicolon.2.2 hcomment
        (Text.spaced_iff.mpr hwords)
      rw [← hblanks] at hpresents
      exact hpresents
    · rw [splitLabel_of_not_mem fun hmem => hcolon (Text.mem_of_mem_trim hmem)] at hsplit
      cases hsplit
      rw [Text.words_trim isSeparator_of_isBlank] at hwords
      exact .unlabelled hcolon hsemicolon hcomment (Text.spaced_iff.mpr hwords)

theorem exists_presents (line : List Char) : ∃ label tokens, Presents line label tokens :=
  ⟨_, _, presents_iff.mpr ⟨_, rfl, rfl⟩⟩

theorem Presents.unique (h : Presents line label tokens) (h' : Presents line label' tokens') :
    label = label' ∧ tokens = tokens' := by
  obtain ⟨text, hsplit, rfl⟩ := h.splitLabel_eq
  obtain ⟨text', hsplit', rfl⟩ := h'.splitLabel_eq
  obtain ⟨rfl, rfl⟩ := Prod.mk.inj (hsplit.symm.trans hsplit')
  exact ⟨rfl, rfl⟩

/-- In capitals, a line has its label and tokens in capitals. -/
theorem Presents.capitals (h : Presents line label tokens) :
    Presents (line.map Char.toUpper) (label.map (List.map Char.toUpper))
      (tokens.map (List.map Char.toUpper)) := by
  have hnot : ∀ {a : Char} {cs : List Char}, a ∈ Text.marks → a ∉ cs →
      a ∉ cs.map Char.toUpper := by
    intro a cs ha hcs
    rw [Text.mem_map_toUpper_iff ha]
    exact hcs
  have hblank : ∀ {cs : List Char}, (∀ c ∈ cs, Text.isBlank c = true) →
      ∀ c ∈ cs.map Char.toUpper, Text.isBlank c = true := by
    intro cs hcs
    simpa using hcs
  have hcomment : ∀ {cs : List Char}, Text.IsComment cs → Text.IsComment (cs.map Char.toUpper) :=
    fun h => h.map fun c => Text.toUpper_eq_iff c (by decide)
  cases h with
  | unlabelled hcolon hsemicolon hc h =>
    rw [List.map_append]
    exact .unlabelled (hnot (by decide) hcolon) (hnot (by decide) hsemicolon) (hcomment hc)
      (h.map isSeparator_toUpper)
  | labelled hfront hlabel hback hcolon hsemicolon hsemicolon' hc h =>
    simp only [List.map_append, List.map_cons]
    exact .labelled (hblank hfront) (hlabel.map Text.isBlank_toUpper) (hblank hback)
      (hnot (by decide) hcolon) (hnot (by decide) hsemicolon) (hnot (by decide) hsemicolon')
      (hcomment hc) (h.map isSeparator_toUpper)

/-- The lines have the same label and the same tokens, in letters of either case. -/
def Restyled (line line' : List Char) : Prop :=
  ∃ label label' tokens tokens', Presents line label tokens ∧ Presents line' label' tokens' ∧
    Option.Rel Text.SameLetters label label' ∧ List.Forall₂ Text.SameLetters tokens tokens'

/-- The case of letters matters nowhere on a line. -/
theorem Restyled.of_sameLetters (h : Text.SameLetters line line') : Restyled line line' := by
  obtain ⟨label, tokens, hline⟩ := exists_presents line
  obtain ⟨label', tokens', hline'⟩ := exists_presents line'
  have hcapitals := hline.capitals
  -- The capitals of both lines are one line, which has one label and one list of tokens.
  rw [h] at hcapitals
  obtain ⟨hlabel, htokens⟩ := hcapitals.unique hline'.capitals
  refine ⟨label, label', tokens, tokens', hline, hline', ?_, ?_⟩
  · cases label with
    | none =>
      rw [Option.map_eq_none_iff.mp hlabel.symm]
      exact .none
    | some cs =>
      obtain ⟨ds, rfl, hds⟩ := Option.map_eq_some_iff.mp hlabel.symm
      exact .some hds.symm
  · rw [← List.forall₂_eq_eq_eq, List.forall₂_map_left_iff, List.forall₂_map_right_iff] at htokens
    exact htokens

/-! ## The first pass -/

/-- The errors name the same line, for the same reason. -/
structure Error.Alike (e e' : Error) : Prop where
  line : e.line = e'.line
  cause : e.cause.Alike e'.cause

namespace Assembler

theorem addText_of_presents (a : Assembler) (n : Nat) (h : Presents line label tokens) :
    a.addText n line = a.labelled label >>= fun b => readTokens tokens >>= fun s =>
      s.elim (.ok b) (b.emit n) := by
  obtain ⟨text, hsplit, hwords⟩ := h.splitLabel_eq
  rw [addText_eq, hsplit, ← hwords]
  rfl

theorem addLine_alike (a : Assembler) (n : Nat) (h : Restyled line line') :
    SameOutcome Error.Alike (a.addLine n line) (a.addLine n line') := by
  obtain ⟨label, label', tokens, tokens', hline, hline', hlabel, htokens⟩ := h
  have htext : SameOutcome Cause.Alike (a.addText n line) (a.addText n line') := by
    rw [addText_of_presents a n hline, addText_of_presents a n hline']
    exact (labelled_alike a hlabel).bind fun b => (readTokens_alike htokens).bind fun s =>
      .refl .refl _
  exact htext.mapError fun hcause => ⟨rfl, hcause⟩

/-- The second source is as far as the first one after each line. By induction on the lines. -/
theorem addLines_alike (a : Assembler) (n : Nat) {lines lines' : List (List Char)}
    (h : List.Forall₂ Restyled lines lines') :
    SameOutcome Error.Alike (a.addLines n lines) (a.addLines n lines') := by
  induction h generalizing a n with
  | nil => exact .ok a
  | cons hline _ ih => exact (addLine_alike a n hline).bind fun b => ih b (n + 1)

end Assembler

/-! ## Sources -/

/-- Sources whose lines have the same labels and tokens, in letters of either case, assemble to the
same cells, or are rejected for the same reason on the same line. -/
theorem assemble_restyled {source source' : String}
    (h : List.Forall₂ Restyled (Text.lines source.toList) (Text.lines source'.toList)) :
    (∃ image, assemble source = .ok image ∧ assemble source' = .ok image) ∨
      ∃ e e', assemble source = .error e ∧ assemble source' = .error e' ∧
        e.line = e'.line ∧ e.cause.Alike e'.cause := by
  have houtcome : SameOutcome Error.Alike (assemble source) (assemble source') :=
    (Assembler.addLines_alike {} 1 h).bind fun a => .refl (fun e => ⟨rfl, .refl e.cause⟩) _
  generalize assemble source = r at houtcome
  generalize assemble source' = r' at houtcome
  cases houtcome with
  | ok image => exact .inl ⟨image, rfl, rfl⟩
  | error h => exact .inr ⟨_, _, rfl, rfl, h.line, h.cause⟩

/-- Two spellings of a loop. -/
theorem assemble_restyled_loop :
    assemble "loop: inc r0a ; count\n jmp Loop" = .ok #[9, 0, 20, -1] ∧
      assemble "  LOOP :INC,R0A\nJMP , loop" = .ok #[9, 0, 20, -1] := by
  have hinc : Presents "loop: inc r0a ; count".toList (some "loop".toList)
      ["inc".toList, "r0a".toList] :=
    presents_iff.mpr ⟨" inc r0a".toList, by decide, by decide⟩
  have hinc' : Presents "  LOOP :INC,R0A".toList (some "LOOP".toList)
      ["INC".toList, "R0A".toList] :=
    presents_iff.mpr ⟨"INC,R0A".toList, by decide, by decide⟩
  have hjmp : Presents " jmp Loop".toList none ["jmp".toList, "Loop".toList] :=
    presents_iff.mpr ⟨"jmp Loop".toList, by decide, by decide⟩
  have hjmp' : Presents "JMP , loop".toList none ["JMP".toList, "loop".toList] :=
    presents_iff.mpr ⟨"JMP , loop".toList, by decide, by decide⟩
  have hfirst : Restyled "loop: inc r0a ; count".toList "  LOOP :INC,R0A".toList :=
    ⟨_, _, _, _, hinc, hinc', .some (by decide), .cons (by decide) (.cons (by decide) .nil)⟩
  have hsecond : Restyled " jmp Loop".toList "JMP , loop".toList :=
    ⟨_, _, _, _, hjmp, hjmp', .none, .cons (by decide) (.cons (by decide) .nil)⟩
  have hlines : Text.lines "loop: inc r0a ; count\n jmp Loop".toList =
      ["loop: inc r0a ; count".toList, " jmp Loop".toList] := by decide
  have hlines' : Text.lines "  LOOP :INC,R0A\nJMP , loop".toList =
      ["  LOOP :INC,R0A".toList, "JMP , loop".toList] := by decide
  have himage : assemble "loop: inc r0a ; count\n jmp Loop" = .ok #[9, 0, 20, -1] := by decide
  have hrestyled : List.Forall₂ Restyled (Text.lines "loop: inc r0a ; count\n jmp Loop".toList)
      (Text.lines "  LOOP :INC,R0A\nJMP , loop".toList) := by
    rw [hlines, hlines']
    exact .cons hfirst (.cons hsecond .nil)
  refine ⟨himage, ?_⟩
  rcases assemble_restyled hrestyled with ⟨image, h, h'⟩ | ⟨e, -, h, -⟩
  · rw [himage] at h
    cases h
    exact h'
  · rw [himage] at h
    cases h

end CellMachine.Assembly
