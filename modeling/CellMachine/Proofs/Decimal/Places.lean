import CellMachine.Decimal.Styles
import CellMachine.Proofs.Decimal.Fixed

/-!
# CellMachine.Proofs.Decimal.Places

Digits on both sides of a decimal point.

* `toDigits_eq_append`         — the digits of a number, in front of the point and after it.
* `decimalValue_append_padded` — the number that they denote.
* `stripZeros_withPlaces`      — what is left of a fraction without the zeros at its end.
-/

namespace CellMachine

variable {places n : Nat} {cs : List Char}

/-! ## Padded digits -/

theorem padded_succ (h : n < 10 ^ (places + 1)) :
    padded (places + 1) n = padded places (n / 10) ++ [(n % 10).digitChar] := by
  rw [padded, if_neg (Nat.succ_ne_zero places), padded]
  rcases Nat.lt_or_ge n 10 with hlt | hge
  · rw [Nat.div_eq_of_lt hlt, Nat.mod_eq_of_lt hlt, Nat.toDigits_of_lt_base hlt]
    cases places with
    | zero => rfl
    | succ k =>
      rw [if_neg (Nat.succ_ne_zero k), List.leftpad, List.leftpad, List.length_singleton,
        Nat.add_sub_cancel, Nat.toDigits_of_lt_base (by norm_num), List.length_singleton,
        Nat.add_sub_cancel, List.replicate_succ']
      rfl
  · have hne : places ≠ 0 := by
      rintro rfl
      omega
    rw [if_neg hne, toDigits_of_ge hge, List.leftpad, List.leftpad, List.length_append,
      List.length_singleton, Nat.add_sub_add_right, List.append_assoc]

theorem div_ten_lt (h : n < 10 ^ (places + 1)) : n / 10 < 10 ^ places := by
  rw [pow_succ] at h
  omega

theorem length_padded (h : n < 10 ^ places) : (padded places n).length = places := by
  induction places generalizing n with
  | zero => rfl
  | succ k ih => rw [padded_succ h, List.length_append, ih (div_ten_lt h), List.length_singleton]

theorem isDigit_of_mem_padded {c : Char} (h : c ∈ padded places n) : c.isDigit = true := by
  unfold padded at h
  split at h
  · cases h
  · rcases List.mem_append.mp h with h | h
    · rw [List.eq_of_mem_replicate h]
      rfl
    · exact Text.isDigit_of_mem_toDigits h

/-- A number with more than `places` digits is written as the digits in front of the last `places`
ones, and these. -/
theorem toDigits_eq_append (h : 10 ^ places ≤ n) :
    Nat.toDigits 10 n = Nat.toDigits 10 (n / 10 ^ places) ++ padded places (n % 10 ^ places) := by
  induction places generalizing n with
  | zero => rw [pow_zero, Nat.div_one, padded, if_pos rfl, List.append_nil]
  | succ k ih =>
    have hpos : 0 < 10 ^ k := by positivity
    have hten : 10 ≤ n := le_trans (by rw [pow_succ]; omega) h
    have hrest : 10 ^ k ≤ n / 10 := by
      rw [Nat.le_div_iff_mul_le (by norm_num), ← pow_succ]
      exact h
    have hdiv : n % 10 ^ (k + 1) / 10 = n / 10 % 10 ^ k := by
      rw [pow_succ', Nat.mod_mul_right_div_self]
    have hmod : n % 10 ^ (k + 1) % 10 = n % 10 := by
      rw [pow_succ']
      exact Nat.mod_mul_right_mod n 10 (10 ^ k)
    rw [padded_succ (Nat.mod_lt _ (by positivity)), hdiv, hmod, toDigits_of_ge hten, ih hrest,
      Nat.div_div_eq_div_mul, ← pow_succ', List.append_assoc]

/-! ## Values -/

theorem decimalValue_concat (cs : List Char) {d : Nat} (h : d < 10) :
    Text.decimalValue (cs ++ [d.digitChar]) = 10 * Text.decimalValue cs + d := by
  have hvalue : ∀ d < 10, Text.digitValue d.digitChar = d := by decide
  rw [Text.decimalValue, List.foldl_append, List.foldl_cons, List.foldl_nil, hvalue d h,
    Text.decimalValue]

theorem decimalValue_append_padded (h : n < 10 ^ places) :
    Text.decimalValue (cs ++ padded places n) = Text.decimalValue cs * 10 ^ places + n := by
  induction places generalizing n with
  | zero =>
    obtain rfl : n = 0 := by omega
    rw [padded, if_pos rfl, List.append_nil, pow_zero, Nat.mul_one, Nat.add_zero]
  | succ k ih =>
    have hdiv := Nat.div_add_mod n 10
    rw [padded_succ h, ← List.append_assoc, decimalValue_concat _ (Nat.mod_lt _ (by norm_num)),
      ih (div_ten_lt h), pow_succ, ← Nat.mul_assoc]
    omega

theorem decimalValue_append_replicate (cs : List Char) (k : Nat) :
    Text.decimalValue (cs ++ List.replicate k '0') = Text.decimalValue cs * 10 ^ k := by
  induction k with
  | zero => rw [List.replicate_zero, List.append_nil, pow_zero, Nat.mul_one]
  | succ k ih =>
    have hzero := decimalValue_concat (cs ++ List.replicate k '0') (Nat.succ_pos 9)
    rw [List.replicate_succ', ← List.append_assoc]
    rw [ih, Nat.add_zero] at hzero
    rw [pow_succ, ← Nat.mul_assoc, Nat.mul_comm _ 10]
    exact hzero

/-! ## Zeros at the end -/

namespace Decimal

theorem exists_dropTrailingZeros (ds : List Char) :
    ∃ k, ds = dropTrailingZeros ds ++ List.replicate k '0' := by
  induction ds using List.reverseRecOn with
  | nil => exact ⟨0, rfl⟩
  | append_singleton ds c ih =>
    by_cases hc : c = '0'
    · obtain ⟨k, hk⟩ := ih
      refine ⟨k + 1, ?_⟩
      rw [hc, dropTrailingZeros_concat_zero, List.replicate_succ', ← List.append_assoc, ← hk]
    · refine ⟨0, ?_⟩
      rw [dropTrailingZeros_concat (beq_eq_false_iff_ne.mpr hc), List.replicate_zero,
        List.append_nil]

theorem length_dropTrailingZeros_le (ds : List Char) :
    (dropTrailingZeros ds).length ≤ ds.length := by
  obtain ⟨k, hk⟩ := exists_dropTrailingZeros ds
  conv_rhs => rw [hk, List.length_append]
  exact Nat.le_add_right _ _

theorem getLast?_dropTrailingZeros (ds : List Char) :
    (dropTrailingZeros ds).getLast? ≠ some '0' := by
  induction ds using List.reverseRecOn with
  | nil => exact nofun
  | append_singleton ds c ih =>
    by_cases hc : c = '0'
    · rw [hc, dropTrailingZeros_concat_zero]
      exact ih
    · rw [dropTrailingZeros_concat (beq_eq_false_iff_ne.mpr hc), List.getLast?_concat, ne_eq,
        Option.some.injEq]
      exact hc

theorem mem_of_mem_dropTrailingZeros {ds : List Char} {c : Char}
    (h : c ∈ dropTrailingZeros ds) : c ∈ ds := by
  obtain ⟨k, hk⟩ := exists_dropTrailingZeros ds
  rw [hk]
  exact List.mem_append_left _ h

theorem dropTrailingZeros_append_replicate (ds : List Char) (k : Nat) :
    dropTrailingZeros (ds ++ List.replicate k '0') = dropTrailingZeros ds := by
  induction k with
  | zero => rw [List.replicate_zero, List.append_nil]
  | succ k ih =>
    rw [List.replicate_succ', ← List.append_assoc, dropTrailingZeros_concat_zero, ih]

theorem dropTrailingZeros_cons {c : Char} (h : c ≠ '0') (ds : List Char) :
    dropTrailingZeros (c :: ds) = c :: dropTrailingZeros ds := by
  have hc : [c].dropWhile (· == '0') = [c] := List.dropWhile_cons_of_neg (by rwa [beq_iff_eq])
  rw [dropTrailingZeros, List.reverse_cons, List.dropWhile_append, dropTrailingZeros]
  split
  · rename_i hempty
    rw [List.isEmpty_iff.mp hempty, hc]
    rfl
  · rw [List.reverse_append]
    rfl

/-- The zeros that were dropped are put back. -/
theorem rightpad_dropTrailingZeros {ds : List Char} (h : ds.length = n) :
    List.rightpad n '0' (dropTrailingZeros ds) = ds := by
  obtain ⟨k, hk⟩ := exists_dropTrailingZeros ds
  have hlen := congrArg List.length hk
  rw [List.length_append, List.length_replicate] at hlen
  rw [List.rightpad, show n - (dropTrailingZeros ds).length = k by omega, ← hk]

end Decimal

/-! ## Fractions -/

/-- The digits of a fraction with their point, if there are any. -/
def point : List Char → List Char
  | [] => []
  | fraction => '.' :: fraction

theorem point_of_ne_nil (h : cs ≠ []) : point cs = '.' :: cs := by
  cases cs with
  | nil => exact absurd rfl h
  | cons c cs => rfl

theorem ne_point_of_isDigit {c : Char} (h : c.isDigit = true) : c ≠ '.' := by
  rintro rfl
  cases h

theorem withPlaces_eq (h : 0 < places) (n : Nat) :
    withPlaces places n =
      Nat.toDigits 10 (n / 10 ^ places) ++ '.' :: padded places (n % 10 ^ places) := by
  rw [withPlaces, if_neg h.ne', tenPow_eq]

theorem withPlaces_zero (n : Nat) : withPlaces 0 n = Nat.toDigits 10 n := by
  rw [withPlaces, if_pos rfl, tenPow_eq, pow_zero, Nat.div_one, List.append_nil]

/-- Digits with a point after the first one are those of a number with all other places. -/
theorem pointed_toDigits (hlow : 10 ^ places ≤ n) (hhigh : n < 10 ^ (places + 1)) :
    pointed (Nat.toDigits 10 n) = withPlaces places n := by
  have hfirst : n / 10 ^ places < 10 := by
    rw [Nat.div_lt_iff_lt_mul (by positivity), ← pow_succ']
    exact hhigh
  rw [toDigits_eq_append hlow, Nat.toDigits_of_lt_base hfirst]
  cases places with
  | zero => rw [withPlaces_zero, Nat.toDigits_of_lt_base (by omega), pow_zero, Nat.div_one]; rfl
  | succ k =>
    have hlen := length_padded (Nat.mod_lt n (by positivity : 0 < 10 ^ (k + 1)))
    obtain ⟨c, rest, hrest⟩ := List.exists_cons_of_length_eq_add_one hlen
    rw [withPlaces_eq (Nat.succ_pos k), Nat.toDigits_of_lt_base hfirst, hrest]
    rfl

theorem dropPoints_of_getLast? {text : List Char} (h : text.getLast? ≠ some '.') :
    (text.reverse.dropWhile (· == '.')).reverse = text := by
  induction text using List.reverseRecOn with
  | nil => rfl
  | append_singleton text c _ =>
    rw [List.getLast?_concat, ne_eq, Option.some.injEq] at h
    rw [List.reverse_concat, List.dropWhile_cons_of_neg (by rwa [beq_iff_eq]), List.reverse_cons,
      List.reverse_reverse]

theorem stripZeros_append {whole fraction : List Char} (hwhole : whole.getLast? ≠ some '.')
    (hfraction : '.' ∉ fraction) :
    stripZeros (whole ++ '.' :: fraction) =
      whole ++ point (Decimal.dropTrailingZeros fraction) := by
  have hzeros : Decimal.dropTrailingZeros (whole ++ '.' :: fraction) =
      whole ++ '.' :: Decimal.dropTrailingZeros fraction := by
    have hpoint := Decimal.dropTrailingZeros_cons (c := '.') (by decide) fraction
    rw [Decimal.dropTrailingZeros_append, hpoint]
    rw [hpoint]
    exact List.cons_ne_nil _ _
  rw [stripZeros, if_pos (List.mem_append_right _ List.mem_cons_self), hzeros]
  cases hdigits : Decimal.dropTrailingZeros fraction with
  | nil =>
    rw [List.reverse_append, List.reverse_singleton, List.singleton_append,
      List.dropWhile_cons_of_pos rfl, dropPoints_of_getLast? hwhole, point, List.append_nil]
  | cons c digits =>
    refine dropPoints_of_getLast? fun hlast => hfraction ?_
    refine Decimal.mem_of_mem_dropTrailingZeros ?_
    rw [hdigits]
    rw [List.getLast?_append_of_ne_nil _ (List.cons_ne_nil _ _), List.getLast?_cons_cons] at hlast
    exact List.mem_of_getLast? hlast

theorem getLast?_minus_append (s : Bool) (n : Nat) :
    (minus s ++ Nat.toDigits 10 n).getLast? ≠ some '.' := by
  rw [List.getLast?_append_of_ne_nil _ Nat.toDigits_ne_nil]
  intro hlast
  exact ne_point_of_isDigit (Text.isDigit_of_mem_toDigits (List.mem_of_getLast? hlast)) rfl

/-- Without the zeros at the end of its fraction, and without its point if no others are left. -/
theorem stripZeros_withPlaces (s : Bool) (places n : Nat) :
    stripZeros (minus s ++ withPlaces places n) =
      minus s ++ Nat.toDigits 10 (n / 10 ^ places) ++
        point (Decimal.dropTrailingZeros (padded places (n % 10 ^ places))) := by
  cases places with
  | zero =>
    have hmem : '.' ∉ minus s ++ Nat.toDigits 10 n := by
      rw [List.mem_append, not_or]
      refine ⟨?_, fun h => ne_point_of_isDigit (Text.isDigit_of_mem_toDigits h) rfl⟩
      cases s <;> decide
    rw [withPlaces_zero, stripZeros, if_neg hmem, pow_zero, Nat.div_one, padded, if_pos rfl]
    exact (List.append_nil _).symm
  | succ k =>
    rw [withPlaces_eq (Nat.succ_pos k), ← List.append_assoc, stripZeros_append]
    · exact getLast?_minus_append s _
    · intro h
      exact ne_point_of_isDigit (isDigit_of_mem_padded h) rfl

end CellMachine
