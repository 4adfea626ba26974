import CellMachine.Decimal.Fixed
import CellMachine.Proofs.Decimal.Canonical
import CellMachine.Proofs.Text.Numeral

/-!
# CellMachine.Proofs.Decimal.Fixed

The fixed-point text of a number spells its triple.

* `Decimal.dropTrailingZeros_toDigits` — the zeros at the end of a text are those of the number.
* `Triple.ofText_fixed`                — what is read from the text of a number.
-/

namespace CellMachine

/-! ## Digits -/

theorem length_toDigits {n : Nat} (h : 0 < n) : (Nat.toDigits 10 n).length = digitCount n := by
  induction n using Nat.strongRecOn with
  | ind n ih =>
    rw [digitCount_of_pos h]
    rcases Nat.lt_or_ge n 10 with hlt | hge
    · rw [Nat.toDigits_of_lt_base hlt, Nat.div_eq_of_lt hlt, digitCount_zero]
      rfl
    · rw [toDigits_of_ge hge, List.length_append, ih (n / 10) (by omega) (by omega)]
      rfl

namespace Decimal

theorem dropTrailingZeros_concat_zero (ds : List Char) :
    dropTrailingZeros (ds ++ ['0']) = dropTrailingZeros ds := by
  rw [dropTrailingZeros, List.reverse_append]
  rfl

theorem dropTrailingZeros_concat {ds : List Char} {c : Char} (h : (c == '0') = false) :
    dropTrailingZeros (ds ++ [c]) = ds ++ [c] := by
  rw [dropTrailingZeros, List.reverse_append, List.reverse_singleton, List.singleton_append,
    List.dropWhile_cons_of_neg (by rw [h]; exact Bool.false_ne_true), List.reverse_cons,
    List.reverse_reverse]

/-- Zeros at the end go no further than the last digit that is not zero. -/
theorem dropTrailingZeros_append {as bs : List Char} (h : dropTrailingZeros bs ≠ []) :
    dropTrailingZeros (as ++ bs) = as ++ dropTrailingZeros bs := by
  unfold dropTrailingZeros at h ⊢
  rw [ne_eq, List.reverse_eq_nil_iff] at h
  rw [List.reverse_append, List.dropWhile_append, if_neg (by rwa [List.isEmpty_iff]),
    List.reverse_append, List.reverse_reverse]

theorem dropTrailingZeros_toDigits {n : Nat} (h : 0 < n) :
    dropTrailingZeros (Nat.toDigits 10 n) = Nat.toDigits 10 (Triple.dropZeros n) := by
  fun_induction Triple.dropZeros n with
  | case1 n hn =>
    have hlast : ((n % 10).digitChar == '0') = false :=
      digitChar_ne_zero (by omega) (Nat.mod_lt _ (by norm_num))
    rcases Nat.lt_or_ge n 10 with hlt | hge
    · rw [Nat.mod_eq_of_lt hlt] at hlast
      rw [Nat.toDigits_of_lt_base hlt]
      exact (dropTrailingZeros_concat hlast : dropTrailingZeros ([] ++ _) = _)
    · rw [toDigits_of_ge hge]
      exact dropTrailingZeros_concat hlast
  | case2 n hn ih =>
    rw [toDigits_of_ge (by omega), show n % 10 = 0 by omega]
    exact (dropTrailingZeros_concat_zero _).trans (ih (by omega))

end Decimal

/-! ## Reading a word -/

namespace Text

/-- A sign and the digits of a number are read as a word, if the number is one. -/
theorem readWord_toDigits (s : Bool) (n : Nat) :
    (readWord (if s then '-' :: Nat.toDigits 10 n else Nat.toDigits 10 n)).toOption =
      Word.ofInt? (Binary64.signed s n) := by
  have hd : ∀ c ∈ Nat.toDigits 10 n, c.isDigit = true := fun c hc => isDigit_of_mem_toDigits hc
  have hsplit : splitSign (if s then '-' :: Nat.toDigits 10 n else Nat.toDigits 10 n) =
      (s, Nat.toDigits 10 n) := by
    cases s with
    | true => rfl
    | false => exact splitSign_of_isDigit hd
  have htake : (Nat.toDigits 10 n).takeWhile Char.isDigit = Nat.toDigits 10 n :=
    List.takeWhile_eq_self_iff.mpr hd
  have hne : (Nat.toDigits 10 n).isEmpty = false :=
    List.isEmpty_eq_false_iff.mpr Nat.toDigits_ne_nil
  simp only [readWord, hsplit, htake, decimalValue_toDigits, hne, Nat.lt_irrefl, decide_false,
    Bool.or_false, Binary64.signed]
  cases Word.ofInt? (if s then -(n : Int) else n) <;> rfl

theorem readWord_of_toOption {cs : List Char} {w : Word} (h : (readWord cs).toOption = some w) :
    readWord cs = .ok w := by
  cases hr : readWord cs with
  | ok v =>
    rw [hr] at h
    cases h
    rfl
  | error e =>
    rw [hr] at h
    cases h

end Text

/-! ## Reading a triple -/

namespace Triple

/-- The integer part of a fixed-point text. -/
def wholeText (s : Bool) (whole : Nat) : List Char :=
  if s then '-' :: Nat.toDigits 10 whole else Nat.toDigits 10 whole

theorem ne_point_of_mem_wholeText {s : Bool} {whole : Nat} {c : Char}
    (h : c ∈ wholeText s whole) : (c != '.') = true := by
  have hdigit : c ∈ Nat.toDigits 10 whole → (c != '.') = true := by
    intro hc
    have hd := Text.isDigit_of_mem_toDigits hc
    rw [bne_iff_ne]
    rintro rfl
    cases hd
  unfold wholeText at h
  split at h
  · rcases List.mem_cons.mp h with rfl | hc
    · rfl
    · exact hdigit hc
  · exact hdigit h

theorem head?_wholeText (s : Bool) (whole : Nat) :
    ((wholeText s whole).head? == some '-') = s := by
  cases s with
  | true => rfl
  | false =>
    rw [beq_eq_false_iff_ne]
    intro h
    have hd := Text.isDigit_of_mem_toDigits (List.mem_of_head? h)
    cases hd

/-- The digits between the outer zeros, and the zeros in front of them. -/
theorem dropTrailingZeros_leftpad {fraction : Nat} (hpos : 0 < fraction) :
    Decimal.dropTrailingZeros (List.leftpad 6 '0' (Nat.toDigits 10 fraction)) =
      List.replicate (6 - digitCount fraction) '0' ++ Nat.toDigits 10 (dropZeros fraction) := by
  rw [List.leftpad, length_toDigits hpos, Decimal.dropTrailingZeros_append,
    Decimal.dropTrailingZeros_toDigits hpos]
  rw [Decimal.dropTrailingZeros_toDigits hpos]
  exact Nat.toDigits_ne_nil

theorem dropZeros_pos {n : Nat} (h : 0 < n) : 0 < dropZeros n := by
  obtain ⟨k, hk, hlast⟩ := exists_dropZeros h
  omega

theorem dropWhile_replicate_append {n z : Nat} (h : 0 < n) :
    (List.replicate z '0' ++ Nat.toDigits 10 n).dropWhile (· == '0') = Nat.toDigits 10 n := by
  rw [List.dropWhile_append_of_pos, dropWhile_toDigits h]
  intro c hc
  rw [List.eq_of_mem_replicate hc]
  rfl

/-- What is read of a text that is taken apart at its point. -/
theorem ofText_append {whole fraction : List Char} (h : ∀ c ∈ whole, (c != '.') = true) :
    ofText (whole ++ '.' :: fraction) = (do
      let ipart ← (Text.readWord whole).mapError fun _ => .outOfRange
      let run := Decimal.dropTrailingZeros fraction
      let digits := run.dropWhile (· == '0')
      let frac ← readDigits (whole ++ '.' :: fraction) digits
      return ⟨ipart, if ipart == 0 && whole.head? == some '-' then -frac else frac,
        Int64.ofNat (run.length - digits.length)⟩) := by
  have htake : (whole ++ '.' :: fraction).takeWhile (· != '.') = whole := by
    rw [List.takeWhile_append_of_pos h]
    exact List.append_nil whole
  have hdrop : (whole ++ '.' :: fraction).dropWhile (· != '.') = '.' :: fraction := by
    rw [List.dropWhile_append_of_pos h]
    rfl
  simp only [ofText, htake, hdrop]

theorem fixed_eq {s : Bool} {units whole fraction : Nat} {hr : Representable units}
    {hu : units < overflowUnits} (h : fraction < 10 ^ 6)
    (hn : halfEven (units * 10 ^ 6) Binary64.unitsPerOne = whole * 10 ^ 6 + fraction) :
    (Binary64.finite s units hr hu).fixed =
      wholeText s whole ++ '.' :: List.leftpad 6 '0' (Nat.toDigits 10 fraction) := by
  have hwhole : (whole * 10 ^ 6 + fraction) / 10 ^ 6 = whole := by omega
  have hfraction : (whole * 10 ^ 6 + fraction) % 10 ^ 6 = fraction := by omega
  simp only [Binary64.fixed, tenPow_eq, places, hn, hwhole, hfraction]
  cases s <;> rfl

/-- The digits between the outer zeros are read as a word. -/
theorem readWord_dropZeros {fraction : Nat} (h : fraction < 10 ^ 6) :
    Text.readWord (Nat.toDigits 10 (dropZeros fraction)) =
      .ok (Int64.ofNat (dropZeros fraction)) := by
  refine Text.readWord_of_toOption ((Text.readWord_toDigits false _).trans ?_)
  rw [Binary64.signed, if_neg Bool.false_ne_true, ← Word.toInt_ofNat (covers_dropZeros h),
    Word.ofInt?_toInt]

/-- The digits of a fraction, and the zeros cut off in front of them, as they are read. -/
theorem read_fraction {fraction : Nat} (h : fraction < 10 ^ 6) (text : List Char) :
    let run := Decimal.dropTrailingZeros (List.leftpad 6 '0' (Nat.toDigits 10 fraction))
    let digits := run.dropWhile (· == '0')
    readDigits text digits = .ok (Int64.ofNat (dropZeros fraction)) ∧
      run.length - digits.length = if fraction = 0 then 0 else 6 - digitCount fraction := by
  rcases Nat.eq_zero_or_pos fraction with rfl | hpos
  · rw [dropZeros_zero]
    exact ⟨rfl, rfl⟩
  · have hne : (Nat.toDigits 10 (dropZeros fraction)).isEmpty = false :=
      List.isEmpty_eq_false_iff.mpr Nat.toDigits_ne_nil
    simp only [dropTrailingZeros_leftpad hpos, dropWhile_replicate_append (dropZeros_pos hpos),
      readDigits, hne, readWord_dropZeros h, if_neg hpos.ne', List.length_append,
      List.length_replicate, Nat.add_sub_cancel_right, Bool.false_eq_true, if_false]
    exact ⟨rfl, trivial⟩

/-- Reading the fixed-point text of a number gives the triple of its millionths. -/
theorem ofText_fixed_finite (s : Bool) (units : Nat) (hr : Representable units)
    (hu : units < overflowUnits) :
    ofText (Binary64.finite s units hr hu).fixed =
      match ofMillionths? s (halfEven (units * 10 ^ 6) Binary64.unitsPerOne) with
      | some t => .ok t
      | none => .error .outOfRange := by
  obtain ⟨whole, fraction, hlt, hn⟩ :=
    exists_whole_fraction (halfEven (units * 10 ^ 6) Binary64.unitsPerOne)
  have hread := Text.readWord_toDigits s whole
  rw [fixed_eq hlt hn, ofText_append fun c => ne_point_of_mem_wholeText, hn, ofMillionths?_eq hlt]
  cases hipart : Word.ofInt? (Binary64.signed s whole) with
  | none =>
    rw [hipart] at hread
    cases hr : Text.readWord (wholeText s whole) with
    | error e => rfl
    | ok w =>
      rw [wholeText] at hr
      rw [hr] at hread
      cases hread
  | some ipart =>
    rw [hipart] at hread
    have hok : Text.readWord (wholeText s whole) = .ok ipart := Text.readWord_of_toOption hread
    have hzero : (ipart == 0) = decide (whole = 0) := by
      have hiff : ipart = 0 ↔ whole = 0 := by
        rw [← Int64.toInt_inj, Word.toInt_of_ofInt? hipart, Int64.toInt_zero,
          ← Int.natAbs_eq_zero, Binary64.natAbs_signed]
      rw [Bool.eq_iff_iff, beq_iff_eq, decide_eq_true_eq, hiff]
    have hsign : (ipart == 0 && (wholeText s whole).head? == some '-') =
        decide (whole = 0 ∧ s = true) := by
      rw [hzero, head?_wholeText, Bool.decide_and, Bool.decide_eq_true]
    obtain ⟨hfrac, hzeros⟩ := read_fraction hlt
      (wholeText s whole ++ '.' :: List.leftpad 6 '0' (Nat.toDigits 10 fraction))
    simp only [hok, hfrac, hzeros, Except.mapError, bind, Except.bind, pure, Except.pure, hsign,
      decide_eq_true_eq, Option.map_some]

/-- The fixed-point text of a finite number spells its triple, if it has one. -/
theorem ofText_fixed {v : Binary64} (h : v.isFinite = true) :
    ofText v.fixed = (ofBinary64 v).mapError fun _ => .outOfRange := by
  cases v with
  | nan => cases h
  | inf s => cases h
  | finite s units hr hu =>
    rw [ofText_fixed_finite, ofBinary64_finite]
    generalize ofMillionths? s _ = o
    cases o <;> rfl

end Triple

end CellMachine
