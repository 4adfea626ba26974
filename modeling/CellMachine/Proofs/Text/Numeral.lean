import CellMachine.Assembly.Statement
import Mathlib.Data.List.TakeWhile

/-!
# CellMachine.Proofs.Text.Numeral

The decimal text of a word reads back as the word.

* `toList_toString`      — the text: a minus sign where there is one, and the digits.
* `readWord_eq_ok_iff`   — which texts are read as words.
* `readWord_toString`    — reading it as a word.
* `readNumber_toString`  — reading it as a number of an assembly source.
-/

namespace CellMachine

/-! ## Digits -/

theorem toDigits_of_ge {n : Nat} (h : 10 ≤ n) :
    Nat.toDigits 10 n = Nat.toDigits 10 (n / 10) ++ [(n % 10).digitChar] :=
  Nat.toDigits_of_base_le (by decide) h

theorem digitChar_ne_zero {d : Nat} (hpos : 0 < d) (hlt : d < 10) :
    (d.digitChar == '0') = false := by
  have h : ∀ d < 10, 0 < d → (d.digitChar == '0') = false := by decide
  exact h d hlt hpos

/-- A positive number is written without zeros in front. -/
theorem dropWhile_toDigits {n : Nat} (h : 0 < n) :
    (Nat.toDigits 10 n).dropWhile (· == '0') = Nat.toDigits 10 n := by
  induction n using Nat.strongRecOn with
  | ind n ih =>
    rcases Nat.lt_or_ge n 10 with hlt | hge
    · rw [Nat.toDigits_of_lt_base hlt, List.dropWhile_cons_of_neg]
      rw [digitChar_ne_zero h hlt]
      exact Bool.false_ne_true
    · rw [toDigits_of_ge hge, List.dropWhile_append, ih (n / 10) (by omega) (by omega), if_neg]
      rw [List.isEmpty_iff]
      exact Nat.toDigits_ne_nil

/-! ## Integers -/

namespace Text

theorem isDigit_of_mem_toDigits {n : Nat} {c : Char} (h : c ∈ Nat.toDigits 10 n) :
    c.isDigit = true :=
  Nat.isDigit_of_mem_toDigits (by decide) (by decide) h

theorem mem_toString_nat {n : Nat} {c : Char} (h : c ∈ (toString n).toList) : c.isDigit = true := by
  rw [show toString n = Nat.repr n from rfl, Nat.toList_repr] at h
  exact isDigit_of_mem_toDigits h

theorem decimalValue_toDigits (n : Nat) : decimalValue (Nat.toDigits 10 n) = n :=
  Nat.ofDigitChars_ten_toDigits

theorem toList_int_of_nonneg {z : Int} (h : 0 ≤ z) :
    (toString z).toList = Nat.toDigits 10 z.natAbs := by
  obtain ⟨n, rfl⟩ := Int.eq_ofNat_of_zero_le h
  exact Nat.toList_repr

theorem toList_int_of_neg {z : Int} (h : z < 0) :
    (toString z).toList = '-' :: Nat.toDigits 10 z.natAbs := by
  obtain ⟨n, rfl⟩ := Int.eq_negSucc_of_lt_zero h
  show ("-" ++ Nat.repr (n + 1)).toList = _
  rw [String.toList_append, Nat.toList_repr]
  rfl

theorem toList_toString_of_nonneg {w : Word} (h : 0 ≤ w.toInt) :
    (toString w).toList = Nat.toDigits 10 w.toInt.natAbs := toList_int_of_nonneg h

theorem toList_toString_of_neg {w : Word} (h : w.toInt < 0) :
    (toString w).toList = '-' :: Nat.toDigits 10 w.toInt.natAbs := toList_int_of_neg h

/-- The text of a word: a minus sign where there is one, and the digits. -/
theorem toList_toString (w : Word) :
    (toString w).toList =
      if w.toInt < 0 then '-' :: Nat.toDigits 10 w.toInt.natAbs
      else Nat.toDigits 10 w.toInt.natAbs := by
  split
  · exact toList_toString_of_neg ‹_›
  · exact toList_toString_of_nonneg (by omega)

theorem mem_toString {w : Word} {c : Char} (h : c ∈ (toString w).toList) :
    c = '-' ∨ c.isDigit = true := by
  rw [toList_toString] at h
  split at h
  · rcases List.mem_cons.mp h with rfl | h
    · exact .inl rfl
    · exact .inr (isDigit_of_mem_toDigits h)
  · exact .inr (isDigit_of_mem_toDigits h)

theorem toString_ne_nil (w : Word) : (toString w).toList ≠ [] := by
  rw [toList_toString]
  split
  · exact List.cons_ne_nil _ _
  · exact Nat.toDigits_ne_nil

theorem splitSign_of_isDigit {cs : List Char} (h : ∀ c ∈ cs, c.isDigit = true) :
    splitSign cs = (false, cs) := by
  match cs, h with
  | [], _ => rfl
  | c :: cs, h =>
    have hc := h c List.mem_cons_self
    have hminus : c ≠ '-' := by rintro rfl; cases hc
    have hplus : c ≠ '+' := by rintro rfl; cases hc
    unfold splitSign
    split
    · rename_i heq
      exact absurd (List.cons.inj heq).1 hminus
    · rename_i heq
      exact absurd (List.cons.inj heq).1 hplus
    · rfl

/-- A sign and digits read as the word that they denote, if there is one. -/
theorem readWord_of_splitSign {cs digits : List Char} {negative : Bool} {w : Word}
    (hs : splitSign cs = (negative, digits)) (hne : digits ≠ [])
    (hd : ∀ c ∈ digits, c.isDigit = true)
    (hw : w.toInt = if negative then -(decimalValue digits : Int) else decimalValue digits) :
    readWord cs = .ok w := by
  have htake : digits.takeWhile Char.isDigit = digits := List.takeWhile_eq_self_iff.mpr hd
  have hsome := Word.ofInt?_toInt w
  rw [hw] at hsome
  simp only [readWord, hs, htake]
  cases negative <;> simp_all

theorem splitSign_cases (cs : List Char) :
    (∃ body, cs = '-' :: body) ∨ (∃ body, cs = '+' :: body) ∨ splitSign cs = (false, cs) := by
  unfold splitSign
  split
  · exact .inl ⟨_, rfl⟩
  · exact .inr (.inl ⟨_, rfl⟩)
  · exact .inr (.inr rfl)

/-- What is read as a word has digits only behind its sign, and their value. -/
theorem eq_of_readWord {cs body : List Char} {negative : Bool} {w : Word}
    (hs : splitSign cs = (negative, body)) (h : readWord cs = .ok w) :
    body ≠ [] ∧ (∀ c ∈ body, c.isDigit = true) ∧
      w.toInt = if negative then -(decimalValue body : Int) else decimalValue body := by
  simp only [readWord, hs] at h
  split at h
  · cases h
  · rename_i v hv
    split at h
    · cases h
    · rename_i hbody
      cases h
      simp only [Bool.or_eq_true, List.isEmpty_iff, decide_eq_true_eq, not_or, Nat.not_lt] at hbody
      have htake : body.takeWhile Char.isDigit = body :=
        (List.takeWhile_prefix _).eq_of_length_le hbody.2
      rw [htake] at hv hbody
      exact ⟨hbody.1, List.takeWhile_eq_self_iff.mp htake, Word.toInt_of_ofInt? hv⟩

/-- One or more decimal digits, with or without a sign, whose value is a word. -/
inductive IsNumeral : List Char → Word → Prop where
  | unsigned {digits : List Char} {w : Word} (hne : digits ≠ [])
      (hd : ∀ c ∈ digits, c.isDigit = true) (hw : w.toInt = decimalValue digits) :
      IsNumeral digits w
  | plus {digits : List Char} {w : Word} (hne : digits ≠ [])
      (hd : ∀ c ∈ digits, c.isDigit = true) (hw : w.toInt = decimalValue digits) :
      IsNumeral ('+' :: digits) w
  | minus {digits : List Char} {w : Word} (hne : digits ≠ [])
      (hd : ∀ c ∈ digits, c.isDigit = true) (hw : w.toInt = -(decimalValue digits : Int)) :
      IsNumeral ('-' :: digits) w

theorem readWord_eq_ok_iff {cs : List Char} {w : Word} : readWord cs = .ok w ↔ IsNumeral cs w := by
  constructor
  · intro h
    rcases splitSign_cases cs with ⟨body, rfl⟩ | ⟨body, rfl⟩ | hs
    · obtain ⟨hne, hd, hw⟩ := eq_of_readWord rfl h
      exact .minus hne hd hw
    · obtain ⟨hne, hd, hw⟩ := eq_of_readWord rfl h
      exact .plus hne hd hw
    · obtain ⟨hne, hd, hw⟩ := eq_of_readWord hs h
      exact .unsigned hne hd hw
  · intro h
    cases h with
    | unsigned hne hd hw => exact readWord_of_splitSign (splitSign_of_isDigit hd) hne hd hw
    | @plus digits _ hne hd hw =>
      have hs : splitSign ('+' :: digits) = (false, digits) := rfl
      exact readWord_of_splitSign hs hne hd hw
    | @minus digits _ hne hd hw =>
      have hs : splitSign ('-' :: digits) = (true, digits) := rfl
      exact readWord_of_splitSign hs hne hd hw

theorem readWord_toString (w : Word) : readWord (toString w).toList = .ok w := by
  have hd : ∀ c ∈ Nat.toDigits 10 w.toInt.natAbs, c.isDigit = true :=
    fun c hc => isDigit_of_mem_toDigits hc
  by_cases h : w.toInt < 0
  · rw [toList_toString_of_neg h]
    have hs : splitSign ('-' :: Nat.toDigits 10 w.toInt.natAbs) =
        (true, Nat.toDigits 10 w.toInt.natAbs) := rfl
    refine readWord_of_splitSign hs Nat.toDigits_ne_nil hd ?_
    rw [decimalValue_toDigits, if_pos rfl]
    omega
  · rw [toList_toString_of_nonneg (by omega)]
    refine readWord_of_splitSign (splitSign_of_isDigit hd) Nat.toDigits_ne_nil hd ?_
    rw [decimalValue_toDigits, if_neg Bool.false_ne_true]
    omega

end Text

namespace Assembly

theorem hexDigits?_of_isDigit {digits : List Char} (h : ∀ c ∈ digits, c.isDigit = true) :
    hexDigits? digits = none := by
  unfold hexDigits?
  split
  · exact absurd (h 'x' (by simp)) (by decide)
  · exact absurd (h 'X' (by simp)) (by decide)
  · rfl

theorem splitMinus_of_isDigit {digits : List Char} (h : ∀ c ∈ digits, c.isDigit = true) :
    splitMinus digits = (false, digits) := by
  unfold splitMinus
  split
  · exact absurd (h '-' (by simp)) (by decide)
  · rfl

/-- A text of digits, or of a minus sign and digits, is read as a decimal number. -/
theorem readNumber_of_splitMinus {text digits : List Char} {negative : Bool}
    (hs : splitMinus text = (negative, digits)) (hd : ∀ c ∈ digits, c.isDigit = true) :
    readNumber text = (Text.readWord text).toOption := by
  have hall : digits.all Char.isDigit = true := List.all_eq_true.mpr hd
  simp only [readNumber, hs, hexDigits?_of_isDigit hd, hall, if_true]

theorem readNumber_toString (w : Word) : readNumber (toString w).toList = some w := by
  have hd : ∀ c ∈ Nat.toDigits 10 w.toInt.natAbs, c.isDigit = true :=
    fun c hc => Text.isDigit_of_mem_toDigits hc
  have hs : splitMinus (toString w).toList =
      (decide (w.toInt < 0), Nat.toDigits 10 w.toInt.natAbs) := by
    rw [Text.toList_toString]
    split
    · rename_i h
      rw [decide_eq_true h]
      rfl
    · rename_i h
      rw [decide_eq_false h]
      exact splitMinus_of_isDigit hd
  rw [readNumber_of_splitMinus hs hd, Text.readWord_toString]
  rfl

end Assembly

end CellMachine
