import CellMachine.Proofs.Decimal.Significant
import CellMachine.Proofs.Decimal.Written
import Mathlib.Tactic.NormNum

/-!
# CellMachine.Proofs.Decimal.General

The general format writes the number that a value rounds to.

* `Significand`                    — the digits of a value that is rounded, and their exponent.
* `Binary64.generalText?_finite`   — both styles write these digits.
* `Binary64.generalText?_rounded`  — the number that is written, and where there is no text.
-/

namespace CellMachine

/-- `n` has `p` digits, the leading one with weight `10 ^ e`, and is what a number of units rounds
to on the grid of the last digit. -/
structure Significand (units p n : Nat) (e : Int) : Prop where
  low : 10 ^ (p - 1) ≤ n
  high : n < 10 ^ p
  leading : ((Decimal.ofUnits units).round p).leading = e
  digits : ((Decimal.ofUnits units).round p).digits =
    Decimal.dropTrailingZeros (Nat.toDigits 10 n)
  near : IsNearest ((units : ℚ) / Binary64.unitsPerOne / 10 ^ (e - p + 1)) n
  rounds : RoundsToDigits p ((units : ℚ) / Binary64.unitsPerOne) (n * 10 ^ (e - p + 1))
  range : -1074 ≤ e ∧ e ≤ 1024

variable {units p n precision : Nat} {e : Int} {s : Bool}

theorem exists_significand (hpos : 0 < units) (hu : units < overflowUnits) (hp : 0 < p) :
    ∃ n e, Significand units p n e := by
  have hcoefficient := Decimal.coefficient_ofUnits_pos hpos
  obtain ⟨n, hlow, hhigh, hvalue, hnear, hzeros, hle, hle'⟩ :=
    Decimal.exists_significand hcoefficient hp
  have hrounds := Decimal.roundsToDigits_round hcoefficient p
  have hrange := Decimal.leading_ofUnits hpos hu
  rw [Decimal.value_ofUnits] at hnear hrounds
  rw [hvalue] at hrounds
  have hn : 0 < n := lt_of_lt_of_le (by positivity) hlow
  refine ⟨n, _, hlow, hhigh, rfl, ?_, hnear, hrounds, hrange.1.trans hle,
    hle'.trans (Int.add_one_le_of_lt hrange.2)⟩
  have hround := Decimal.coefficient_round_pos hcoefficient hp
  rw [Decimal.digits, Decimal.dropTrailingZeros_toDigits hround, hzeros,
    Decimal.dropTrailingZeros_toDigits hn]

/-! ## The two styles -/

/-- Numbers with this exponent are written with it: it is small, or the last of `p` digits would be
in front of the point. -/
def IsScientific (p : Nat) (e : Int) : Prop := e < -4 ∨ p ≤ e

instance (p : Nat) (e : Int) : Decidable (IsScientific p e) := inferInstanceAs (Decidable (_ ∨ _))

/-- More digits are asked for than the limit allows, or more decimal places. -/
def ExceedsLimit (p : Nat) (e : Int) : Prop :=
  maxPrecision < p ∨ ¬IsScientific p e ∧ maxPrecision < p - 1 - e

instance (p : Nat) (e : Int) : Decidable (ExceedsLimit p e) := inferInstanceAs (Decidable (_ ∨ _))

namespace Significand

theorem pos (h : Significand units p n e) : 0 < n := lt_of_lt_of_le (by positivity) h.low

theorem length (h : Significand units p n e) (hp : 0 < p) :
    (Nat.toDigits 10 n).length = p := by
  have hlow := h.low
  have hle := digitCount_le_iff.mpr h.high
  rw [length_toDigits h.pos]
  rw [← Nat.not_lt, ← digitCount_le_iff] at hlow
  omega

theorem exponentialText?_eq (h : Significand units p n e) (hp : 0 < p) (hlimit : p ≤ maxPrecision)
    (s : Bool) :
    exponentialText? (p - 1) s units =
      some (minus s ++ withPlaces (p - 1) n ++ 'e' :: (toString e).toList) := by
  have hpad := Decimal.rightpad_dropTrailingZeros (h.length hp)
  have hsucc : p - 1 + 1 = p := Nat.sub_add_cancel hp
  have hpoint : pointed (Nat.toDigits 10 n) = withPlaces (p - 1) n :=
    pointed_toDigits h.low (by rw [hsucc]; exact h.high)
  rw [exponentialText?, if_pos (by omega), hsucc]
  simp only [h.leading, h.digits, hpad, hpoint]

/-- The fixed-point style rounds the value itself, and comes to the same digits: the last place that
is left is that of the last digit. -/
theorem fixedText?_eq (h : Significand units p n e) {places : Nat}
    (hplaces : (places : Int) = p - 1 - e) (s : Bool) :
    fixedText? places s units =
      if places ≤ maxPrecision then some (minus s ++ withPlaces places n) else none := by
  have hnear := isNearest_halfEven (units * 10 ^ places) Binary64.unitsPerOne_pos
  have hscale : ((units * 10 ^ places : Nat) : ℚ) / Binary64.unitsPerOne =
      units / Binary64.unitsPerOne / 10 ^ (e - p + 1) := by
    rw [show e - p + 1 = -(places : Int) by omega, zpow_neg, zpow_natCast, div_inv_eq_mul,
      Nat.cast_mul, Nat.cast_pow, Nat.cast_ofNat, div_mul_eq_mul_div]
  rw [hscale] at hnear
  have hn : halfEven (units * 10 ^ places) Binary64.unitsPerOne = n := by
    exact_mod_cast hnear.unique h.near
  rw [fixedText?, tenPow_eq, hn]

end Significand

/-! ## The general format -/

theorem readWord_toString_int {z : Int} (hlow : -2 ^ 63 ≤ z) (hhigh : z < 2 ^ 63) :
    Text.readWord (toString z).toList = .ok (Int64.ofInt z) := by
  have hz := Int64.toInt_ofInt_of_le hlow hhigh
  have hread := Text.readWord_toString (Int64.ofInt z)
  rwa [show toString (Int64.ofInt z) = toString (Int64.ofInt z).toInt from rfl, hz] at hread

theorem ne_mark_of_mem {places : Nat} {c : Char} (h : c ∈ minus s ++ withPlaces places n) :
    (c != 'e') = true := by
  have hdigit : c.isDigit = true → (c != 'e') = true := by
    intro hd
    rw [bne_iff_ne]
    rintro rfl
    cases hd
  rcases List.mem_append.mp h with h | h
  · cases s with
    | false => cases h
    | true => rw [List.mem_singleton.mp h]; rfl
  · rcases List.mem_append.mp h with h | h
    · exact hdigit (Text.isDigit_of_mem_toDigits h)
    · split at h
      · cases h
      · rcases List.mem_cons.mp h with rfl | h
        · rfl
        · exact hdigit (isDigit_of_mem_padded h)

/-- `p` digits with an exponent, or around the point that the exponent says. -/
def Written.ofSignificand (s : Bool) (p n : Nat) (e : Int) : Written :=
  if IsScientific p e then .ofDigits s (p - 1) n (some e)
  else .ofDigits s (p - 1 - e).toNat n none

/-- The general format made from the exponential text, taken apart at its mark. -/
theorem Binary64.generalText?_of_exponentialText? {hr : Representable units}
    {hu : units < overflowUnits} (hpos : 0 < units) {mantissa : List Char}
    (htext : exponentialText? (max precision 1 - 1) s units =
      some (mantissa ++ 'e' :: (toString e).toList))
    (hmantissa : ∀ c ∈ mantissa, (c != 'e') = true) (hlow : -2 ^ 63 ≤ e) (hhigh : e < 2 ^ 63) :
    (finite s units hr hu).generalText? precision =
      if IsScientific (max precision 1) e then some (stripZeros mantissa ++ exponentMark e)
      else (fixedText? ((max precision 1 : Nat) - 1 - e).toNat s units).map stripZeros := by
  have htake : (mantissa ++ 'e' :: (toString e).toList).takeWhile (· != 'e') = mantissa := by
    rw [List.takeWhile_append_of_pos hmantissa]
    exact List.append_nil _
  have hdrop : (mantissa ++ 'e' :: (toString e).toList).dropWhile (· != 'e') =
      'e' :: (toString e).toList := List.dropWhile_append_of_pos hmantissa
  have hread := readWord_toString_int hlow hhigh
  have hexponent := Int64.toInt_ofInt_of_le hlow hhigh
  rw [generalText?, if_neg hpos.ne']
  dsimp only
  rw [htext]
  simp only [Option.bind_eq_bind, Option.bind_some, hdrop, htake, hread, Except.toOption,
    Option.getD_some, hexponent]
  by_cases hstyle : e < -4 ∨ e ≥ (max precision 1 : Nat)
  · rw [if_pos hstyle, if_pos (show IsScientific _ e from hstyle)]
    rfl
  · rw [if_neg hstyle, if_neg (show ¬IsScientific _ e from hstyle)]
    cases fixedText? ((max precision 1 : Nat) - 1 - e).toNat s units <;> rfl

/-- The text of a number that is not zero, if no limit is exceeded. -/
theorem Binary64.generalText?_finite {hr : Representable units} {hu : units < overflowUnits}
    (hpos : 0 < units) (h : Significand units (max precision 1) n e) :
    (finite s units hr hu).generalText? precision =
      if ExceedsLimit (max precision 1) e then none
      else some (Written.ofSignificand s (max precision 1) n e).text := by
  by_cases hlimit : maxPrecision < max precision 1
  · have hnone : exponentialText? (max precision 1 - 1) s units = none := if_neg (by omega)
    rw [if_pos (.inl hlimit), generalText?, if_neg hpos.ne']
    dsimp only
    rw [hnone]
    rfl
  have htext := h.exponentialText?_eq (by omega) (Nat.not_lt.mp hlimit) s
  rw [generalText?_of_exponentialText? hpos htext (fun _ hc => ne_mark_of_mem hc)
    (le_trans (by norm_num) h.range.1) (lt_of_le_of_lt h.range.2 (by norm_num))]
  by_cases hstyle : IsScientific (max precision 1) e
  · have hnot : ¬ExceedsLimit (max precision 1) e :=
      fun hexceeds => hexceeds.elim hlimit fun h => h.1 hstyle
    rw [if_pos hstyle, if_neg hnot, Written.ofSignificand, if_pos hstyle, Written.text_ofDigits]
    rfl
  · have hplaces : (((max precision 1 : Nat) - 1 - e).toNat : Int) =
        (max precision 1 : Nat) - 1 - e := by
      rw [IsScientific] at hstyle
      omega
    rw [if_neg hstyle, h.fixedText?_eq hplaces, Written.ofSignificand, if_neg hstyle,
      Written.text_ofDigits]
    by_cases hfixed : ((max precision 1 : Nat) - 1 - e).toNat ≤ maxPrecision
    · have hnot : ¬ExceedsLimit (max precision 1) e := by
        rintro (hexceeds | ⟨-, hexceeds⟩) <;> omega
      rw [if_pos hfixed, if_neg hnot, Option.map_some]
      exact congrArg some (List.append_nil _).symm
    · have hexceeds : ExceedsLimit (max precision 1) e := .inr ⟨hstyle, by omega⟩
      rw [if_neg hfixed, if_pos hexceeds, Option.map_none]

namespace Significand

theorem roundsToDigits (h : Significand units p n e) (s : Bool) :
    RoundsToDigits p ((Binary64.signed s units : ℚ) / Binary64.unitsPerOne)
      (Binary64.signed s n * 10 ^ (e - p + 1)) := by
  cases s with
  | false =>
    rw [Binary64.signed_false, Binary64.signed_false, Int.cast_natCast, Int.cast_natCast]
    exact h.rounds
  | true =>
    rw [Binary64.signed_true, Binary64.signed_true, Int.cast_neg, Int.cast_neg, Int.cast_natCast,
      Int.cast_natCast, neg_div, neg_mul]
    exact h.rounds.neg

theorem hasExponent (h : Significand units p n e) (hp : 0 < p) (s : Bool) :
    HasExponent (Binary64.signed s n * 10 ^ (e - p + 1)) e := by
  have hdigits := HasExponent.of_digits hp h.low h.high e
  cases s with
  | false =>
    rw [Binary64.signed_false, Int.cast_natCast]
    exact hdigits
  | true =>
    rw [Binary64.signed_true, Int.cast_neg, Int.cast_natCast, neg_mul]
    exact hdigits.neg

theorem tidy (h : Significand units p n e) (hp : 0 < p) (s : Bool) :
    (Written.ofSignificand s p n e).Tidy := by
  unfold Written.ofSignificand
  split
  · refine Written.tidy_ofDigits s fun _ => ⟨h.low, ?_⟩
    rw [Nat.sub_add_cancel hp]
    exact h.high
  · exact Written.tidy_ofDigits s fun hne => absurd rfl hne

end Significand

namespace Written

theorem negative_ofSignificand (s : Bool) (p n : Nat) (e : Int) :
    (ofSignificand s p n e).negative = s := by
  unfold ofSignificand
  split <;> rfl

theorem exponent_ofSignificand (s : Bool) (p n : Nat) (e : Int) :
    (ofSignificand s p n e).exponent = if IsScientific p e then some e else none := by
  unfold ofSignificand
  split <;> rfl

theorem value_ofSignificand (s : Bool) (hp : 0 < p) (n : Nat) (e : Int) :
    (ofSignificand s p n e).value = Binary64.signed s n * 10 ^ (e - p + 1) := by
  unfold ofSignificand
  split
  · rw [value_ofDigits]
    congr 2
    rw [Option.getD_some]
    omega
  · rename_i hstyle
    rw [IsScientific] at hstyle
    rw [value_ofDigits]
    congr 2
    rw [Option.getD_none]
    omega

end Written

namespace Binary64

theorem signed_div_neg_iff (hpos : 0 < units) :
    (signed s units : ℚ) / unitsPerOne < 0 ↔ s = true := by
  have hone : (0 : ℚ) < unitsPerOne := by exact_mod_cast unitsPerOne_pos
  have hunits : (0 : ℚ) < units := by exact_mod_cast hpos
  have hdiv := div_pos hunits hone
  cases s with
  | false =>
    rw [signed_false, Int.cast_natCast]
    exact ⟨fun hneg => absurd hneg hdiv.not_gt, nofun⟩
  | true =>
    rw [signed_true, Int.cast_neg, Int.cast_natCast, neg_div, neg_lt_zero]
    exact ⟨fun _ => rfl, fun _ => hdiv⟩

theorem exists_finite {v : Binary64} {x : ℚ} (hx : v.toRat? = some x) (hne : x ≠ 0) :
    ∃ s units hr hu, v = finite s units hr hu ∧ 0 < units ∧
      x = (signed s units : ℚ) / unitsPerOne := by
  obtain ⟨s, units, ⟨hr, hu, rfl⟩, rfl⟩ := exists_hasUnits hx
  refine ⟨s, units, hr, hu, rfl, Nat.pos_of_ne_zero ?_, rfl⟩
  rintro rfl
  refine hne ?_
  cases s <;> simp [signed]

theorem generalText?_eq_none_iff {v : Binary64} {x y : ℚ} (hx : v.toRat? = some x) (hne : x ≠ 0)
    (hy : RoundsToDigits (max precision 1) x y) (he : HasExponent y e) :
    v.generalText? precision = none ↔ ExceedsLimit (max precision 1) e := by
  have hp : 0 < max precision 1 := by omega
  obtain ⟨s, units, hr, hu, rfl, hpos, rfl⟩ := exists_finite hx hne
  obtain ⟨n, e', h⟩ := exists_significand hpos hu hp
  have hrounds := (h.roundsToDigits s).unique hy
  obtain rfl : e = e' := he.unique (hrounds ▸ h.hasExponent hp s)
  rw [generalText?_finite hpos h]
  split
  · exact ⟨fun _ => ‹_›, fun _ => rfl⟩
  · exact ⟨nofun, fun hexceeds => absurd hexceeds ‹_›⟩

/-- The text denotes the number that a value rounds to: with an exponent if this is less than -4 or
not less than the count of digits, and without one otherwise. There is no text where one of the two
styles is asked for more than it is limited to. -/
theorem generalText?_rounded {v : Binary64} {x : ℚ} (precision : Nat) (hx : v.toRat? = some x)
    (hne : x ≠ 0) :
    ∃ y e, RoundsToDigits (max precision 1) x y ∧
      (∀ y', RoundsToDigits (max precision 1) x y' → y' = y) ∧ HasExponent y e ∧
      (v.generalText? precision = none ↔ ExceedsLimit (max precision 1) e) ∧
      ∀ text, v.generalText? precision = some text →
        ∃ w : Written, text = w.text ∧ w.Tidy ∧
          (∀ w' : Written, text = w'.text → w'.Tidy → w' = w) ∧
          w.value = y ∧ (w.negative = true ↔ x < 0) ∧
          w.exponent = if IsScientific (max precision 1) e then some e else none := by
  have hp : 0 < max precision 1 := by omega
  obtain ⟨s, units, hr, hu, rfl, hpos, rfl⟩ := exists_finite hx hne
  obtain ⟨n, e, h⟩ := exists_significand hpos hu hp
  have hrounds := h.roundsToDigits s
  have hexponent := h.hasExponent hp s
  refine ⟨_, e, hrounds, fun y' hy' => hrounds.unique hy', hexponent,
    generalText?_eq_none_iff hx hne hrounds hexponent, fun text htext => ?_⟩
  have htidy := h.tidy hp s
  rw [generalText?_finite hpos h] at htext
  split at htext
  · cases htext
  · cases htext
    refine ⟨_, rfl, htidy, fun w' hw' htidy' => Written.eq_of_text_eq htidy' htidy hw'.symm,
      Written.value_ofSignificand s hp n e, ?_, Written.exponent_ofSignificand s _ n e⟩
    rw [Written.negative_ofSignificand, signed_div_neg_iff hpos]

theorem toRat?_one_div_sixtyFour : (ofBits 0x3F90000000000000).toRat? = some (1 / 64) := by
  have hunits : (ofBits 0x3F90000000000000).HasUnits false (1 <<< 1068) := ⟨_, _, rfl⟩
  rw [hunits.toRat?_of_shiftLeft (j := 6) rfl, signed_false]
  norm_num

/-- The value `1 / 64` is halfway between two numbers of four digits. -/
theorem generalText?_rounded_tie :
    ∃ w : Written, (ofBits 0x3F90000000000000).generalText? 4 = some w.text ∧ w.Tidy ∧
      w.value = 1562 / 10 ^ 5 ∧ w.exponent = none := by
  obtain ⟨y, e, -, hunique, he, hnone, htext⟩ :=
    generalText?_rounded 4 toRat?_one_div_sixtyFour (by norm_num)
  have hround : RoundsToDigits (max 4 1) (1 / 64) (1562 / 10 ^ 5) := by
    refine ⟨-2, 1562, .of_le (by norm_num) (by norm_num), ⟨?_, fun _ => by decide⟩, ?_⟩
    · rw [abs_le]
      constructor <;> norm_num
    · norm_num
  obtain rfl := hunique _ hround
  obtain rfl : e = -2 := he.unique (.of_le (by norm_num) (by norm_num))
  cases hgeneral : (ofBits 0x3F90000000000000).generalText? 4 with
  | none => exact absurd (hnone.mp hgeneral) (by decide)
  | some text =>
    obtain ⟨w, rfl, htidy, -, hvalue, -, hexponent⟩ := htext text hgeneral
    exact ⟨w, rfl, htidy, hvalue, hexponent⟩

/-- No text where the number of digits is the limit itself: the leading digit of `1 / 64` is the
second one after the point, so this takes more places than digits. -/
theorem generalText?_beyond_places :
    (ofBits 0x3F90000000000000).toRat? = some (1 / 64) ∧
      (ofBits 0x3F90000000000000).generalText? 65535 = none := by
  refine ⟨toRat?_one_div_sixtyFour, ?_⟩
  have he : HasExponent (1 / 64) (-2) := .of_le (by norm_num) (by norm_num)
  have hself : RoundsToDigits (max 65535 1) (1 / 64) (1 / 64) :=
    RoundsToDigits.self (m := 15625) (j := -6) he (by norm_num) (by decide)
  exact (generalText?_eq_none_iff toRat?_one_div_sixtyFour (by norm_num) hself he).mpr (by decide)

end Binary64

end CellMachine
