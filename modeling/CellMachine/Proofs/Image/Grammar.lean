import CellMachine.Image
import CellMachine.Proofs.Result
import CellMachine.Proofs.Text.Numeral
import CellMachine.Proofs.Text.Scan

/-!
# CellMachine.Proofs.Image.Grammar

Which texts are images, and where the others are wrong.

* `Image.parseText_eq`   — a text is read word by word.
* `Image.parseText_scan` — the words have to be numerals, and the first one that is not is reported.
-/

namespace CellMachine.Image

open Text (Scan IsNumeral numberedWords)

/-- A word with the number of its line, read as a cell. -/
def readCell (numbered : Nat × List Char) : Except ImageError Word :=
  (Text.readWord numbered.2).mapError (.word numbered.1 (String.ofList numbered.2))

theorem parseLines_eq (number : Nat) (lines : List (List Char)) :
    parseLines number lines = (numberedWords number lines).mapM readCell := by
  induction lines generalizing number with
  | nil => rfl
  | cons line lines ih =>
    rw [parseLines, numberedWords, List.mapM_append, ih, List.mapM_map]
    rfl

theorem parseText_eq {text : String} {ws : List (Nat × List Char)} (h : Scan 1 text.toList ws) :
    parseText text = (ws.mapM readCell).map List.toArray := by
  rw [parseText, parseLines_eq, ← h.eq_numberedWords]

theorem readCell_eq_ok_iff {p : Nat × List Char} {w : Word} :
    readCell p = .ok w ↔ IsNumeral p.2 w := by
  rw [readCell, mapError_eq_ok_iff, Text.readWord_eq_ok_iff]

/-- A word that is not read as a cell is quoted with the number of its line. -/
theorem of_readCell_eq_error {p : Nat × List Char} {e : ImageError} (h : readCell p = .error e) :
    (¬∃ w, IsNumeral p.2 w) ∧ ∃ cause, e = .word p.1 (String.ofList p.2) cause := by
  refine ⟨?_, ?_⟩
  · rintro ⟨w, hw⟩
    rw [readCell_eq_ok_iff.mpr hw] at h
    cases h
  · obtain ⟨cause, -, rfl⟩ := mapError_eq_error_iff.mp h
    exact ⟨cause, rfl⟩

theorem mapM_readCell_eq_ok_iff {ws : List (Nat × List Char)} {cells : List Word} :
    ws.mapM readCell = .ok cells ↔ List.Forall₂ (fun p w => IsNumeral p.2 w) ws cells := by
  simp only [mapM_eq_ok_iff, readCell_eq_ok_iff]

theorem exists_forall₂_iff {ws : List (Nat × List Char)} :
    (∃ cells, List.Forall₂ (fun p w => IsNumeral p.2 w) ws cells) ↔
      ∀ p ∈ ws, ∃ w, IsNumeral p.2 w := by
  induction ws with
  | nil => exact ⟨fun _ => nofun, fun _ => ⟨[], .nil⟩⟩
  | cons p ws ih =>
    rw [List.forall_mem_cons, ← ih]
    constructor
    · rintro ⟨cells, h⟩
      cases h with
      | cons hw hcells => exact ⟨⟨_, hw⟩, _, hcells⟩
    · rintro ⟨⟨w, hw⟩, cells, hcells⟩
      exact ⟨w :: cells, .cons hw hcells⟩

/-- A text is an image exactly if each of its words outside comments is a numeral, and its cells are
their values in the order of the text. Of any other text the first word that is no numeral is
reported with the number of its line, whatever follows it. -/
theorem parseText_scan (text : String) :
    ∃ ws, Scan 1 text.toList ws ∧ (∀ ws', Scan 1 text.toList ws' → ws' = ws) ∧
      ((∃ image, parseText text = .ok image) ↔ ∀ p ∈ ws, ∃ w, IsNumeral p.2 w) ∧
      (∀ image, parseText text = .ok image →
        List.Forall₂ (fun p w => IsNumeral p.2 w) ws image.toList) ∧
      ∀ e, parseText text = .error e → ∃ front number word back cause,
        ws = front ++ (number, word) :: back ∧ (∀ p ∈ front, ∃ w, IsNumeral p.2 w) ∧
          (¬∃ w, IsNumeral word w) ∧ e = .word number (String.ofList word) cause ∧
          e.message =
            s!"parse error on line {number}: '{String.ofList word}': {cause.message}" := by
  obtain ⟨ws, hws⟩ := Text.exists_scan 1 text.toList
  have hparse := parseText_eq hws
  have hok : ∀ image, parseText text = .ok image →
      List.Forall₂ (fun p w => IsNumeral p.2 w) ws image.toList := by
    intro image himage
    rw [hparse, map_eq_ok_iff] at himage
    obtain ⟨cells, hcells, rfl⟩ := himage
    exact mapM_readCell_eq_ok_iff.mp hcells
  refine ⟨ws, hws, fun ws' hws' => hws'.eq_numberedWords.trans hws.eq_numberedWords.symm,
    ⟨?_, fun h => ?_⟩, hok, fun e he => ?_⟩
  · rintro ⟨image, himage⟩
    exact exists_forall₂_iff.mp ⟨_, hok image himage⟩
  · obtain ⟨cells, hcells⟩ := exists_forall₂_iff.mpr h
    rw [hparse, mapM_readCell_eq_ok_iff.mpr hcells]
    exact ⟨_, rfl⟩
  · rw [hparse, map_eq_error_iff, mapM_eq_error_iff] at he
    obtain ⟨front, ⟨number, word⟩, back, rfl, hfront, hword⟩ := he
    obtain ⟨hnot, cause, rfl⟩ := of_readCell_eq_error hword
    refine ⟨front, number, word, back, cause, rfl, fun p hp => ?_, hnot, rfl, rfl⟩
    obtain ⟨w, hw⟩ := hfront p hp
    exact ⟨w, readCell_eq_ok_iff.mp hw⟩

/-- The second line has a word that is no numeral, in front of a word that is too large. -/
theorem parseText_scan_second_line :
    ∃ cause, parseText "+7;\n 5 -x\r\n9999999999999999999" = .error (.word 2 "-x" cause) := by
  obtain ⟨ws, hws, -, hok, -, herror⟩ := parseText_scan "+7;\n 5 -x\r\n9999999999999999999"
  have hwords : ws = [(1, "+7".toList), (2, "5".toList), (2, "-x".toList),
      (3, "9999999999999999999".toList)] := hws.eq_numberedWords.trans (by decide)
  have h7 : IsNumeral "+7".toList 7 := Text.readWord_eq_ok_iff.mp (by decide)
  have h5 : IsNumeral "5".toList 5 := Text.readWord_eq_ok_iff.mp (by decide)
  have hx : ¬∃ w, IsNumeral "-x".toList w := by
    rintro ⟨w, hw⟩
    have hread := Text.readWord_eq_ok_iff.mpr hw
    rw [show Text.readWord "-x".toList = .error .invalidDigit by decide] at hread
    cases hread
  cases hparse : parseText "+7;\n 5 -x\r\n9999999999999999999" with
  | ok image =>
    exact absurd (hok.mp ⟨image, hparse⟩ (2, "-x".toList) (by rw [hwords]; decide)) hx
  | error e =>
    obtain ⟨front, number, word, back, cause, hsplit, hfront, hword, rfl, -⟩ := herror e hparse
    rw [hwords] at hsplit
    rcases front with _ | ⟨a, _ | ⟨b, _ | ⟨c, front⟩⟩⟩ <;>
      simp only [List.nil_append, List.cons_append, List.cons.injEq, Prod.mk.injEq] at hsplit
    · exact absurd ⟨7, hsplit.1.2 ▸ h7⟩ hword
    · exact absurd ⟨5, hsplit.2.1.2 ▸ h5⟩ hword
    · obtain ⟨-, -, ⟨rfl, rfl⟩, -⟩ := hsplit
      exact ⟨cause, rfl⟩
    · have hc : ∃ w, IsNumeral c.2 w := hfront c (by simp)
      rw [← hsplit.2.2.1] at hc
      exact absurd hc hx

end CellMachine.Image
