import CellMachine.Proofs.Binary64.Exact
import CellMachine.Proofs.Decimal.Digits
import CellMachine.Proofs.Word
import Mathlib.Algebra.Order.Field.Rat
import Mathlib.Tactic.FieldSimp

/-!
# CellMachine.Proofs.Decimal.Canonical

The triples in use among all that three words can hold.

* `Triple.exact`      — the rational number that a triple denotes, before any rounding.
* `Triple.Canonical`  — triples without superfluous zeros, of at most six places.
* `Triple.Canonical.eq_of_exact_eq` — a number has one canonical triple at most.
* `Triple.ofMillionths?_eq_some_iff` — which triple is that of a count of millionths.
-/

namespace CellMachine

namespace Triple

variable {t : Triple}

/-- The decimal places in use: the digits of the fraction and the zeros before them. -/
def usedPlaces (t : Triple) : Nat := digitCount t.frac.toInt.natAbs + t.lz.toInt.toNat

/-- The number that a triple denotes. Its sign is that of the integer part, or of the fraction
where the integer part is zero. -/
def exact (t : Triple) : ℚ :=
  let magnitude : ℚ := t.ipart.toInt.natAbs + t.frac.toInt.natAbs / 10 ^ t.usedPlaces
  if t.isNegative then -magnitude else magnitude

/-- No digit of a canonical triple could be left out, and a fraction carries a sign only where the
integer part cannot. -/
structure Canonical (t : Triple) : Prop where
  lz_of_frac : t.frac = 0 → t.lz = 0
  last_digit : t.frac ≠ 0 → t.frac.toInt % 10 ≠ 0
  lz_nonneg : t.frac ≠ 0 → 0 ≤ t.lz
  places_le : t.frac ≠ 0 → t.usedPlaces ≤ 6
  ipart_of_neg : t.frac < 0 → t.ipart = 0

/-- The magnitude of a canonical triple in millionths. -/
def millionths (t : Triple) : Nat :=
  t.ipart.toInt.natAbs * 10 ^ 6 + t.frac.toInt.natAbs * 10 ^ (6 - t.usedPlaces)

theorem isNegative_iff :
    t.isNegative = true ↔ t.ipart.toInt < 0 ∨ t.ipart.toInt = 0 ∧ t.frac.toInt < 0 := by
  rw [isNegative, Bool.or_eq_true, Bool.and_eq_true, decide_eq_true_eq, decide_eq_true_eq,
    beq_iff_eq, Int64.lt_iff_toInt_lt, Int64.lt_iff_toInt_lt, ← Int64.toInt_inj, Int64.toInt_zero]

theorem frac_lt (t : Triple) : t.frac.toInt.natAbs < 10 ^ t.usedPlaces :=
  digitCount_le_iff.mp (Nat.le_add_right _ _)

/-- Where the integer part is not zero, it has the sign. -/
theorem signed_ipart (t : Triple) :
    Binary64.signed t.isNegative t.ipart.toInt.natAbs = t.ipart.toInt := by
  have hiff := isNegative_iff (t := t)
  unfold Binary64.signed
  split
  · have hneg := hiff.mp ‹_›
    omega
  · rename_i hneg
    rw [hiff] at hneg
    omega

namespace Canonical

theorem nonneg (h : t.Canonical) : 0 ≤ t.lz.toInt := by
  by_cases hf : t.frac = 0
  · rw [h.lz_of_frac hf, Int64.toInt_zero]
  · have hlz := Int64.le_iff_toInt_le.mp (h.lz_nonneg hf)
    rwa [Int64.toInt_zero] at hlz

theorem usedPlaces_le (h : t.Canonical) : t.usedPlaces ≤ 6 := by
  by_cases hf : t.frac = 0
  · rw [usedPlaces, h.lz_of_frac hf, hf, Int64.toInt_zero]
    simp
  · exact h.places_le hf

theorem frac_mul_lt (h : t.Canonical) :
    t.frac.toInt.natAbs * 10 ^ (6 - t.usedPlaces) < 10 ^ 6 := by
  calc t.frac.toInt.natAbs * 10 ^ (6 - t.usedPlaces)
      < 10 ^ t.usedPlaces * 10 ^ (6 - t.usedPlaces) :=
        Nat.mul_lt_mul_of_pos_right t.frac_lt (by positivity)
    _ = 10 ^ 6 := by rw [← pow_add, Nat.add_sub_cancel' h.usedPlaces_le]

/-- Where the integer part is zero, the fraction has the sign. -/
theorem signed_frac (h : t.Canonical) :
    (if t.ipart.toInt.natAbs = 0 ∧ t.isNegative = true then
      -Int64.ofNat t.frac.toInt.natAbs else Int64.ofNat t.frac.toInt.natAbs) = t.frac := by
  have hiff := isNegative_iff (t := t)
  have hipart : t.frac.toInt < 0 → t.ipart.toInt = 0 := by
    intro hneg
    rw [h.ipart_of_neg (by rwa [Int64.lt_iff_toInt_lt, Int64.toInt_zero]), Int64.toInt_zero]
  rw [← Int64.ofInt_eq_ofNat, Int64.neg_ofInt]
  split
  · rename_i hneg
    rw [hiff] at hneg
    rw [show -(t.frac.toInt.natAbs : Int) = t.frac.toInt by omega, Int64.ofInt_toInt]
  · rename_i hneg
    rw [hiff] at hneg
    rw [show (t.frac.toInt.natAbs : Int) = t.frac.toInt by omega, Int64.ofInt_toInt]

theorem exact_eq (h : t.Canonical) :
    t.exact = (Binary64.signed t.isNegative t.millionths : ℚ) / 10 ^ 6 := by
  have hpow : (10 : ℚ) ^ 6 = 10 ^ t.usedPlaces * 10 ^ (6 - t.usedPlaces) := by
    rw [← pow_add, Nat.add_sub_cancel' h.usedPlaces_le]
  have hmagnitude : (t.ipart.toInt.natAbs : ℚ) + t.frac.toInt.natAbs / 10 ^ t.usedPlaces =
      (t.millionths : ℚ) / 10 ^ 6 := by
    rw [millionths, Nat.cast_add, Nat.cast_mul, Nat.cast_mul, Nat.cast_pow, Nat.cast_pow,
      Nat.cast_ofNat, add_div, mul_div_cancel_right₀ _ (by positivity), hpow,
      mul_div_mul_right _ _ (by positivity)]
  unfold exact Binary64.signed
  simp only [hmagnitude]
  split
  · rw [Int.cast_neg, Int.cast_natCast, neg_div]
  · rw [Int.cast_natCast]

end Canonical

/-! ## The triple of a count of millionths -/

theorem exists_whole_fraction (n : Nat) :
    ∃ whole fraction, fraction < 10 ^ 6 ∧ n = whole * 10 ^ 6 + fraction :=
  ⟨n / 10 ^ 6, n % 10 ^ 6, Nat.mod_lt _ (by norm_num), by omega⟩

theorem ofMillionths?_eq {whole fraction : Nat} (h : fraction < 10 ^ 6) (s : Bool) :
    ofMillionths? s (whole * 10 ^ 6 + fraction) =
      (Word.ofInt? (Binary64.signed s whole)).map fun ipart =>
        ⟨ipart,
          if whole = 0 ∧ s = true then -Int64.ofNat (dropZeros fraction)
          else Int64.ofNat (dropZeros fraction),
          Int64.ofNat (if fraction = 0 then 0 else 6 - digitCount fraction)⟩ := by
  have hwhole : (whole * 10 ^ 6 + fraction) / tenPow places = whole := by
    rw [tenPow_eq, places]
    omega
  have hfraction : (whole * 10 ^ 6 + fraction) % tenPow places = fraction := by
    rw [tenPow_eq, places]
    omega
  simp only [ofMillionths?, hwhole, hfraction]
  cases Word.ofInt? (Binary64.signed s whole) <;> rfl

theorem ofMillionths?_zero (s s' : Bool) : ofMillionths? s 0 = ofMillionths? s' 0 := by
  cases s <;> cases s' <;> simp [ofMillionths?, Binary64.signed, dropZeros_zero]

theorem ofMillionths?_of_canonical (h : t.Canonical) :
    ofMillionths? t.isNegative t.millionths = some t := by
  have hdigits : dropZeros (t.frac.toInt.natAbs * 10 ^ (6 - t.usedPlaces)) =
      t.frac.toInt.natAbs := by
    by_cases hf : t.frac = 0
    · rw [hf, Int64.toInt_zero, Int.natAbs_zero, Nat.zero_mul, dropZeros_zero]
    · have hlast := h.last_digit hf
      exact dropZeros_mul_tenPow (by omega) _
  have hzeros : (if t.frac.toInt.natAbs * 10 ^ (6 - t.usedPlaces) = 0 then 0
      else 6 - digitCount (t.frac.toInt.natAbs * 10 ^ (6 - t.usedPlaces))) = t.lz.toInt.toNat := by
    by_cases hf : t.frac = 0
    · rw [hf, h.lz_of_frac hf, Int64.toInt_zero, Int.natAbs_zero, Nat.zero_mul, if_pos rfl]
      rfl
    · have hpos : 0 < t.frac.toInt.natAbs := Int.natAbs_pos.mpr (Word.toInt_ne_zero hf)
      have hle := h.usedPlaces_le
      rw [if_neg (Nat.mul_pos hpos (by positivity)).ne', digitCount_mul_tenPow hpos]
      rw [usedPlaces] at hle ⊢
      omega
  have hlz : Int64.ofNat t.lz.toInt.toNat = t.lz :=
    (Word.eq_ofNat_of_toInt_eq (Int.toNat_of_nonneg h.nonneg).symm).symm
  rw [millionths, ofMillionths?_eq h.frac_mul_lt, hdigits, hzeros, hlz, h.signed_frac,
    t.signed_ipart, Word.ofInt?_toInt, Option.map_some]

/-- The digits of a fraction have the sign of the number where the integer part is zero. -/
theorem toInt_signedDigits {p : Prop} [Decidable p] {digits : Nat} (h : Word.Covers digits) :
    (if p then -Int64.ofNat digits else Int64.ofNat digits).toInt =
      Binary64.signed p digits := by
  unfold Binary64.signed
  by_cases hp : p
  · rw [if_pos hp, if_pos (decide_eq_true hp), Word.toInt_neg_ofNat h]
  · rw [if_neg hp, if_neg (by rw [decide_eq_true_eq]; exact hp), Word.toInt_ofNat h]

/-- The digits of a fraction of six places, its zeros put back at both ends. -/
theorem usedPlaces_dropZeros {fraction : Nat} (hpos : 0 < fraction) (h : fraction < 10 ^ 6) :
    ∃ k, fraction = dropZeros fraction * 10 ^ k ∧ dropZeros fraction % 10 ≠ 0 ∧
      digitCount (dropZeros fraction) + (6 - digitCount fraction) = 6 - k ∧ k ≤ 6 := by
  obtain ⟨k, hk, hlast⟩ := exists_dropZeros hpos
  have hcount := digitCount_mul_tenPow (n := dropZeros fraction) (by omega) k
  rw [← hk] at hcount
  have hle := digitCount_le_iff.mpr h
  exact ⟨k, hk, hlast, by omega, by omega⟩

theorem dropZeros_le (n : Nat) : dropZeros n ≤ n := by
  rcases Nat.eq_zero_or_pos n with rfl | hpos
  · rw [dropZeros_zero]
  · obtain ⟨k, hk, -⟩ := exists_dropZeros hpos
    calc dropZeros n ≤ dropZeros n * 10 ^ k := Nat.le_mul_of_pos_right _ (by positivity)
      _ = n := hk.symm

theorem covers_dropZeros {fraction : Nat} (h : fraction < 10 ^ 6) :
    Word.Covers (dropZeros fraction) := by
  have hle := dropZeros_le fraction
  rw [Word.Covers, Int64.toInt_maxValue]
  omega

/-- Which sign a triple has, from its integer part and its digits. -/
theorem isNegative_of_parts {s : Bool} {whole digits : Nat}
    (hipart : t.ipart.toInt = Binary64.signed s whole)
    (hfrac : t.frac.toInt = Binary64.signed (whole = 0 ∧ s = true) digits)
    (hne : whole ≠ 0 ∨ digits ≠ 0) : t.isNegative = s := by
  have hiff := isNegative_iff (t := t)
  rw [hipart, hfrac] at hiff
  simp only [Binary64.signed, decide_eq_true_eq] at hiff
  cases s with
  | false =>
    rw [Bool.eq_false_iff, ne_eq, hiff]
    simp only [Bool.false_eq_true, and_false, if_false]
    omega
  | true =>
    rw [hiff]
    simp only [and_true, if_true]
    split <;> omega

/-- The integer part carries the sign unless it is zero. -/
theorem ipart_of_parts {s : Bool} {whole digits : Nat}
    (hipart : t.ipart.toInt = Binary64.signed s whole)
    (hfrac : t.frac.toInt = Binary64.signed (whole = 0 ∧ s = true) digits) (hneg : t.frac < 0) :
    t.ipart = 0 := by
  rw [Int64.lt_iff_toInt_lt, hfrac, Int64.toInt_zero] at hneg
  simp only [Binary64.signed, decide_eq_true_eq] at hneg
  split at hneg
  · rename_i hzero
    refine Int64.toInt_inj.mp ?_
    rw [hipart, hzero.1, Int64.toInt_zero]
    simp [Binary64.signed]
  · omega

theorem canonical_of_digits {s : Bool} {whole digits k : Nat}
    (hipart : t.ipart.toInt = Binary64.signed s whole)
    (hfrac : t.frac.toInt = Binary64.signed (whole = 0 ∧ s = true) digits)
    (hlz : 0 ≤ t.lz) (hlast : digits % 10 ≠ 0)
    (hused : digitCount digits + t.lz.toInt.toNat = 6 - k) (hk : k ≤ 6) :
    t.Canonical ∧ t.millionths = whole * 10 ^ 6 + digits * 10 ^ k ∧ t.isNegative = s := by
  have hnat : t.frac.toInt.natAbs = digits := by rw [hfrac, Binary64.natAbs_signed]
  have hne : t.frac ≠ 0 := by
    rintro hzero
    rw [hzero, Int64.toInt_zero] at hnat
    omega
  have hplaces : t.usedPlaces = 6 - k := by rw [usedPlaces, hnat, hused]
  refine ⟨⟨?_, ?_, ?_, ?_, ?_⟩, ?_, ?_⟩
  · intro hzero
    exact absurd hzero hne
  · omega
  · intro _
    exact hlz
  · omega
  · exact ipart_of_parts hipart hfrac
  · rw [millionths, hipart, Binary64.natAbs_signed, hnat, hplaces, Nat.sub_sub_self hk]
  · exact isNegative_of_parts hipart hfrac (.inr (by omega))

theorem canonical_of_frac_eq_zero {s : Bool} {whole : Nat}
    (hipart : t.ipart.toInt = Binary64.signed s whole) (hfrac : t.frac = 0) (hlz : t.lz = 0) :
    t.Canonical ∧ t.millionths = whole * 10 ^ 6 ∧ (whole = 0 ∨ t.isNegative = s) := by
  have hzero : t.frac.toInt = Binary64.signed (whole = 0 ∧ s = true) 0 := by
    rw [hfrac, Int64.toInt_zero]
    simp [Binary64.signed]
  refine ⟨⟨fun _ => hlz, ?_, ?_, ?_, ipart_of_parts hipart hzero⟩, ?_, ?_⟩
  · exact absurd hfrac
  · exact absurd hfrac
  · exact absurd hfrac
  · rw [millionths, hipart, Binary64.natAbs_signed, hfrac, Int64.toInt_zero, Int.natAbs_zero, Nat.zero_mul,
      Nat.add_zero]
  · rcases Nat.eq_zero_or_pos whole with hwhole | hwhole
    · exact .inl hwhole
    · exact .inr (isNegative_of_parts hipart hzero (.inl hwhole.ne'))

theorem canonical_of_ofMillionths? {s : Bool} {n : Nat} (h : ofMillionths? s n = some t) :
    t.Canonical ∧ t.millionths = n ∧ (n = 0 ∨ t.isNegative = s) := by
  obtain ⟨whole, fraction, hlt, rfl⟩ := exists_whole_fraction n
  rw [ofMillionths?_eq hlt] at h
  obtain ⟨ipart, hipart, rfl⟩ := Option.map_eq_some_iff.mp h
  have hipart := Word.toInt_of_ofInt? hipart
  rcases Nat.eq_zero_or_pos fraction with rfl | hpos
  · have hparts := canonical_of_frac_eq_zero (t := ⟨ipart, _, _⟩) hipart
      (show (if whole = 0 ∧ s = true then -Int64.ofNat (dropZeros 0)
        else Int64.ofNat (dropZeros 0)) = (0 : Word) by rw [dropZeros_zero]; split <;> rfl)
      (show Int64.ofNat (if 0 = 0 then 0 else 6 - digitCount 0) = 0 by rw [if_pos rfl]; rfl)
    rw [Nat.add_zero]
    exact ⟨hparts.1, hparts.2.1, hparts.2.2.imp_left fun hwhole => by omega⟩
  · obtain ⟨k, hk, hlast, hcount, hle⟩ := usedPlaces_dropZeros hpos hlt
    have hzeros : (Int64.ofNat (if fraction = 0 then 0 else 6 - digitCount fraction)).toInt =
        ((6 - digitCount fraction : Nat) : Int) := by
      rw [if_neg hpos.ne', Word.toInt_ofNat]
      rw [Word.Covers, Int64.toInt_maxValue]
      omega
    have hparts := canonical_of_digits (t := ⟨ipart, _, _⟩) hipart
      (toInt_signedDigits (covers_dropZeros hlt))
      (by rw [Int64.le_iff_toInt_le, hzeros, Int64.toInt_zero]; omega) hlast
      (by rw [hzeros, Int.toNat_natCast, hcount]) hle
    rw [← hk] at hparts
    exact ⟨hparts.1, hparts.2.1, .inr hparts.2.2⟩

/-- The triple of a count of millionths is the canonical one with this magnitude and sign. -/
theorem ofMillionths?_eq_some_iff {s : Bool} {n : Nat} :
    ofMillionths? s n = some t ↔ t.Canonical ∧ t.millionths = n ∧ (n = 0 ∨ t.isNegative = s) := by
  refine ⟨canonical_of_ofMillionths?, ?_⟩
  rintro ⟨h, rfl, hsign⟩
  have hself := ofMillionths?_of_canonical h
  rcases hsign with hzero | rfl
  · rw [hzero] at hself ⊢
    rw [ofMillionths?_zero s t.isNegative, hself]
  · exact hself

/-- Whether there is a triple depends on the integer part alone. -/
theorem ofMillionths?_eq_none_iff {s : Bool} {n : Nat} :
    ofMillionths? s n = none ↔ Word.ofInt? (Binary64.signed s (n / 10 ^ 6)) = none := by
  have hn : n = n / 10 ^ 6 * 10 ^ 6 + n % 10 ^ 6 := by omega
  conv_lhs => rw [hn, ofMillionths?_eq (Nat.mod_lt _ (by norm_num))]
  exact Option.map_eq_none_iff

/-- A number has one canonical triple at most. -/
theorem Canonical.eq_of_exact_eq {u : Triple} (ht : t.Canonical) (hu : u.Canonical)
    (h : t.exact = u.exact) : t = u := by
  rw [ht.exact_eq, hu.exact_eq, div_left_inj' (by positivity)] at h
  have hsigned : Binary64.signed t.isNegative t.millionths =
      Binary64.signed u.isNegative u.millionths := by exact_mod_cast h
  obtain ⟨hmillionths, hsign⟩ := Binary64.signed_eq_signed_iff.mp hsigned
  have htself := ofMillionths?_of_canonical ht
  rw [hmillionths] at htself
  have huself : ofMillionths? t.isNegative u.millionths = some u :=
    ofMillionths?_eq_some_iff.mpr ⟨hu, rfl, hsign.imp_right Eq.symm⟩
  exact Option.some.inj (htself.symm.trans huself)

theorem ofBinary64_finite (s : Bool) (units : Nat) (hr : Representable units)
    (hu : units < overflowUnits) :
    ofBinary64 (.finite s units hr hu) =
      match ofMillionths? s (halfEven (units * 10 ^ 6) Binary64.unitsPerOne) with
      | some t => .ok t
      | none => .error (.outOfRange (.finite s units hr hu)) := rfl

/-- The triple of a finite number, by its millionths. -/
theorem ofBinary64_finite_eq_ok_iff {s : Bool} {units : Nat} {hr : Representable units}
    {hu : units < overflowUnits} :
    ofBinary64 (.finite s units hr hu) = .ok t ↔
      t.Canonical ∧ t.millionths = halfEven (units * 10 ^ 6) Binary64.unitsPerOne ∧
        (halfEven (units * 10 ^ 6) Binary64.unitsPerOne = 0 ∨ t.isNegative = s) := by
  rw [← ofMillionths?_eq_some_iff, ofBinary64_finite]
  generalize ofMillionths? s _ = o
  cases o with
  | none => exact ⟨nofun, nofun⟩
  | some u => rw [Except.ok.injEq, Option.some.injEq]

end Triple

end CellMachine
