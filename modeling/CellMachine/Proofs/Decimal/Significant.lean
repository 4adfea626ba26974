import CellMachine.Proofs.Binary64.Exact
import CellMachine.Proofs.Decimal.Digits
import Mathlib.Algebra.Order.Field.Power

/-!
# CellMachine.Proofs.Decimal.Significant

Rounding to a count of significant digits.

* `RoundsToDigits`             — the number with so many digits that a number rounds to.
* `Decimal.exists_significand` — the digits of a rounded decimal are those that the number rounds to
  at the place of the last digit, also where rounding carries into a new leading digit.
-/

namespace CellMachine

variable {x y : ℚ} {e : Int} {p : Nat}

theorem ten_zpow_add (i j : Int) : (10 : ℚ) ^ (i + j) = 10 ^ i * 10 ^ j :=
  zpow_add₀ (by norm_num) i j

theorem ten_zpow_sub_natCast (i : Int) (n : Nat) : (10 : ℚ) ^ (i - n) = 10 ^ i / 10 ^ n := by
  rw [zpow_sub₀ (by norm_num), zpow_natCast]

/-! ## Exponents -/

/-- The leading digit of `x` has the weight `10 ^ e`. -/
def HasExponent (x : ℚ) (e : Int) : Prop := 10 ^ e ≤ |x| ∧ |x| < 10 ^ (e + 1)

namespace HasExponent

theorem unique {e' : Int} (h : HasExponent x e) (h' : HasExponent x e') : e = e' := by
  have hlt := (zpow_lt_zpow_iff_right₀ (by norm_num)).mp (h.1.trans_lt h'.2)
  have hlt' := (zpow_lt_zpow_iff_right₀ (by norm_num)).mp (h'.1.trans_lt h.2)
  omega

theorem neg (h : HasExponent x e) : HasExponent (-x) e := by
  rwa [HasExponent, abs_neg]

theorem of_le (hlow : 10 ^ e ≤ x) (hhigh : x < 10 ^ (e + 1)) : HasExponent x e := by
  have hpos : 0 < x := lt_of_lt_of_le (by positivity) hlow
  rw [HasExponent, abs_of_pos hpos]
  exact ⟨hlow, hhigh⟩

/-- A number of `p` digits whose last one has the weight `10 ^ (e - p + 1)`. -/
theorem of_digits {n : Nat} (hp : 0 < p) (hlow : 10 ^ (p - 1) ≤ n) (hhigh : n < 10 ^ p) (e : Int) :
    HasExponent (n * 10 ^ (e - p + 1)) e := by
  have hpos : (0 : ℚ) < 10 ^ (e - p + 1) := by positivity
  have hlow' : ((10 : ℚ) ^ (p - 1)) ≤ n := by exact_mod_cast hlow
  have hhigh' : (n : ℚ) < 10 ^ p := by exact_mod_cast hhigh
  have hfirst : (10 : ℚ) ^ e = 10 ^ (p - 1) * 10 ^ (e - p + 1) := by
    rw [← zpow_natCast, ← ten_zpow_add]
    congr 1
    omega
  have hnext : (10 : ℚ) ^ (e + 1) = 10 ^ p * 10 ^ (e - p + 1) := by
    rw [← zpow_natCast, ← ten_zpow_add]
    congr 1
    omega
  refine of_le ?_ ?_
  · rw [hfirst]
    exact mul_le_mul_of_nonneg_right hlow' hpos.le
  · rw [hnext]
    exact mul_lt_mul_of_pos_right hhigh' hpos

end HasExponent

/-! ## Rounding -/

/-- `y` is the number of `p` significant digits nearest to `x`; of two, it is the even one. -/
def RoundsToDigits (p : Nat) (x y : ℚ) : Prop :=
  ∃ e k : Int, HasExponent x e ∧ IsNearest (x / 10 ^ (e - p + 1)) k ∧ y = k * 10 ^ (e - p + 1)

namespace RoundsToDigits

theorem unique {y' : ℚ} (h : RoundsToDigits p x y) (h' : RoundsToDigits p x y') : y' = y := by
  obtain ⟨e, k, he, hk, rfl⟩ := h
  obtain ⟨e', k', he', hk', rfl⟩ := h'
  obtain rfl := he.unique he'
  rw [hk.unique hk']

theorem neg (h : RoundsToDigits p x y) : RoundsToDigits p (-x) (-y) := by
  obtain ⟨e, k, he, hk, rfl⟩ := h
  refine ⟨e, -k, he.neg, ?_, ?_⟩
  · rw [neg_div]
    exact hk.neg
  · rw [Int.cast_neg, neg_mul]

end RoundsToDigits

theorem isNearest_intCast (k : Int) : IsNearest k k :=
  .of_lt (by rw [sub_self, abs_zero]; norm_num)

/-- A number whose digits all fit is left alone. -/
theorem RoundsToDigits.self {m j : Int} (he : HasExponent x e) (hx : x = m * 10 ^ j)
    (h : e - p + 1 ≤ j) : RoundsToDigits p x x := by
  have hscale : (10 : ℚ) ^ j = ((10 ^ (j - (e - p + 1)).toNat : Int) : ℚ) * 10 ^ (e - p + 1) := by
    rw [Int.cast_pow, Int.cast_ofNat, ← zpow_natCast, ← ten_zpow_add]
    congr 1
    omega
  have hgrid : x = ((m * 10 ^ (j - (e - p + 1)).toNat : Int) : ℚ) * 10 ^ (e - p + 1) := by
    rw [hx, hscale, Int.cast_mul, mul_assoc]
  refine ⟨e, _, he, ?_, hgrid⟩
  conv_lhs => rw [hgrid]
  rw [mul_div_cancel_right₀ _ (by positivity)]
  exact isNearest_intCast _

/-- A multiple of ten that is nearest stays the nearest on a grid that is ten times as wide. -/
theorem IsNearest.div_ten {k : Int} (h : IsNearest x ((10 * k : Int))) : IsNearest (x / 10) k := by
  have hnear := abs_le.mp h.near
  rw [Int.cast_mul, Int.cast_ofNat] at hnear
  refine .of_lt ?_
  rw [abs_lt]
  constructor <;> linarith

/-! ## Rounded decimals -/

namespace Triple

theorem dropZeros_mul_tenPow_of_pos {n : Nat} (h : 0 < n) (k : Nat) :
    dropZeros (n * 10 ^ k) = dropZeros n := by
  induction k with
  | zero => rw [pow_zero, Nat.mul_one]
  | succ k ih => rw [pow_succ, ← Nat.mul_assoc, dropZeros_mul_ten (by positivity), ih]

/-- Numbers with the same digits differ in the zeros at their ends. -/
theorem dropZeros_eq {m n : Nat} {i j : Int} (hm : 0 < m) (hn : 0 < n)
    (h : (m : ℚ) * 10 ^ i = n * 10 ^ j) : dropZeros m = dropZeros n := by
  wlog hij : i ≤ j generalizing m n i j
  · exact (this hn hm h.symm (Int.le_of_not_le hij)).symm
  have hscale : (10 : ℚ) ^ j = 10 ^ (j - i).toNat * 10 ^ i := by
    rw [← zpow_natCast, ← ten_zpow_add]
    congr 1
    omega
  rw [hscale, ← mul_assoc, mul_left_inj' (by positivity)] at h
  have hmul : m = n * 10 ^ (j - i).toNat := by exact_mod_cast h
  rw [hmul, dropZeros_mul_tenPow_of_pos hn]

end Triple

namespace Decimal

variable {d : Decimal}

def value (d : Decimal) : ℚ := d.coefficient * 10 ^ d.exponent

theorem hasExponent_value (h : 0 < d.coefficient) : HasExponent d.value d.leading := by
  have hdigits :=
    HasExponent.of_digits (digitCount_pos h) (pow_le_of_pos h) (lt_pow_digitCount _) d.leading
  rw [leading] at hdigits ⊢
  rwa [show d.exponent + digitCount d.coefficient - 1 - digitCount d.coefficient + 1 = d.exponent
    by omega] at hdigits

/-- The multiple of the weight of the `p`-th digit that a decimal rounds to. -/
def significand (p : Nat) (d : Decimal) : Nat :=
  halfEven d.coefficient (10 ^ (digitCount d.coefficient - p)) *
    10 ^ (p - digitCount d.coefficient)

theorem value_round (p : Nat) (d : Decimal) :
    (d.round p).value = d.significand p * 10 ^ (d.leading - p + 1) := by
  rw [value, round, significand, leading]
  simp only [tenPow_eq]
  rw [Nat.cast_mul, Nat.cast_pow, Nat.cast_ofNat, mul_assoc, ← zpow_natCast (10 : ℚ) (p - _),
    ← ten_zpow_add]
  congr 2
  omega

theorem isNearest_significand (p : Nat) (d : Decimal) :
    IsNearest (d.value / 10 ^ (d.leading - p + 1)) (d.significand p : Nat) := by
  have hexp : d.leading - p + 1 =
      d.exponent + (digitCount d.coefficient - p : Nat) - (p - digitCount d.coefficient : Nat) := by
    rw [leading]
    omega
  have hvalue : d.value / 10 ^ (d.leading - p + 1) =
      d.coefficient / (10 ^ (digitCount d.coefficient - p) : Nat) *
        10 ^ (p - digitCount d.coefficient) := by
    rw [value, hexp, ten_zpow_sub_natCast, ten_zpow_add, zpow_natCast, Nat.cast_pow, Nat.cast_ofNat]
    field_simp
  rw [hvalue, significand]
  rcases Nat.le_total (digitCount d.coefficient) p with hle | hle
  · rw [Nat.sub_eq_zero_of_le hle, pow_zero, Nat.cast_one, div_one]
    have hself := halfEven_mul_self d.coefficient Nat.one_pos
    rw [Nat.mul_one] at hself
    rw [hself]
    exact_mod_cast isNearest_intCast _
  · rw [Nat.sub_eq_zero_of_le hle, pow_zero, pow_zero, mul_one, Nat.mul_one]
    exact isNearest_halfEven _ (by positivity)

theorem pow_le_significand (h : 0 < d.coefficient) (hp : 0 < p) :
    10 ^ (p - 1) ≤ d.significand p := by
  have hcount := digitCount_pos h
  have hlow := pow_le_of_pos h
  refine le_trans ?_ (Nat.mul_le_mul_right _ (div_le_halfEven _ _))
  rcases Nat.le_total (digitCount d.coefficient) p with hle | hle
  · rw [Nat.sub_eq_zero_of_le hle, pow_zero, Nat.div_one]
    calc 10 ^ (p - 1)
        = 10 ^ (digitCount d.coefficient - 1) * 10 ^ (p - digitCount d.coefficient) := by
          rw [← pow_add]
          congr 1
          omega
      _ ≤ _ := Nat.mul_le_mul_right _ hlow
  · rw [Nat.sub_eq_zero_of_le hle, pow_zero, Nat.mul_one, Nat.le_div_iff_mul_le (by positivity),
      ← pow_add]
    rwa [show p - 1 + (digitCount d.coefficient - p) = digitCount d.coefficient - 1 by omega]

theorem coefficient_round_pos (h : 0 < d.coefficient) (hp : 0 < p) :
    0 < (d.round p).coefficient := by
  have hpos : 0 < d.significand p := lt_of_lt_of_le (by positivity) (pow_le_significand h hp)
  exact Nat.pos_of_mul_pos_right hpos

theorem significand_le (p : Nat) (d : Decimal) : d.significand p ≤ 10 ^ p := by
  have hhigh := lt_pow_digitCount d.coefficient
  rw [significand]
  rcases Nat.le_total (digitCount d.coefficient) p with hle | hle
  · have hself := halfEven_mul_self d.coefficient Nat.one_pos
    rw [Nat.mul_one] at hself
    rw [Nat.sub_eq_zero_of_le hle, pow_zero, hself, ← Nat.add_sub_cancel' hle, pow_add,
      Nat.add_sub_cancel_left]
    exact Nat.mul_le_mul_right _ hhigh.le
  · have hdiv : d.coefficient / 10 ^ (digitCount d.coefficient - p) < 10 ^ p := by
      rw [Nat.div_lt_iff_lt_mul (by positivity), ← pow_add, Nat.add_sub_cancel' hle]
      exact hhigh
    rw [Nat.sub_eq_zero_of_le hle, pow_zero, Nat.mul_one]
    exact (halfEven_le_succ_div _ _).trans hdiv

theorem roundsToDigits_round (h : 0 < d.coefficient) (p : Nat) :
    RoundsToDigits p d.value (d.round p).value :=
  ⟨d.leading, _, hasExponent_value h, isNearest_significand p d, value_round p d⟩

/-- A decimal rounds to `p` digits on a grid, that of its own `p`-th digit or, where all digits were
nines and rounding carries, one that is ten times as wide. -/
theorem exists_grid (h : 0 < d.coefficient) (hp : 0 < p) :
    ∃ (n : Nat) (e : Int), 10 ^ (p - 1) ≤ n ∧ n < 10 ^ p ∧
      (d.round p).value = n * 10 ^ (e - p + 1) ∧ IsNearest (d.value / 10 ^ (e - p + 1)) n ∧
      d.leading ≤ e ∧ e ≤ d.leading + 1 := by
  have hlow := pow_le_significand h hp
  have hnear := isNearest_significand p d
  have hvalue := value_round p d
  rcases Nat.lt_or_eq_of_le (significand_le p d) with hlt | hcarry
  · exact ⟨_, d.leading, hlow, hlt, hvalue, hnear, le_rfl, by omega⟩
  · have hten : d.significand p = 10 * 10 ^ (p - 1) := by
      rw [hcarry, ← pow_succ']
      congr 1
      omega
    have hwide : (10 : ℚ) ^ (d.leading + 1 - p + 1) = 10 ^ (d.leading - p + 1) * 10 := by
      rw [show d.leading + 1 - p + 1 = d.leading - p + 1 + 1 by omega, ten_zpow_add, zpow_one]
    refine ⟨10 ^ (p - 1), d.leading + 1, le_rfl, ?_, ?_, ?_, by omega, le_rfl⟩
    · exact Nat.pow_lt_pow_right (by norm_num) (by omega)
    · rw [hvalue, hten, hwide, Nat.cast_mul, Nat.cast_ofNat]
      ring
    · rw [hwide, ← div_div]
      refine IsNearest.div_ten ?_
      rw [hten] at hnear
      exact_mod_cast hnear

/-- The `p` digits of a rounded decimal: on the grid of its last digit, the number rounds to them. -/
theorem exists_significand (h : 0 < d.coefficient) (hp : 0 < p) :
    ∃ n : Nat, 10 ^ (p - 1) ≤ n ∧ n < 10 ^ p ∧
      (d.round p).value = n * 10 ^ ((d.round p).leading - p + 1) ∧
      IsNearest (d.value / 10 ^ ((d.round p).leading - p + 1)) n ∧
      Triple.dropZeros (d.round p).coefficient = Triple.dropZeros n ∧
      d.leading ≤ (d.round p).leading ∧ (d.round p).leading ≤ d.leading + 1 := by
  have hcoefficient := coefficient_round_pos h hp
  obtain ⟨n, e, hlow, hhigh, hvalue, hnear, hle, hle'⟩ := exists_grid h hp
  obtain rfl : (d.round p).leading = e := by
    refine (hasExponent_value hcoefficient).unique ?_
    rw [hvalue]
    exact .of_digits hp hlow hhigh e
  have hn : 0 < n := lt_of_lt_of_le (by positivity) hlow
  exact ⟨n, hlow, hhigh, hvalue, hnear, Triple.dropZeros_eq hcoefficient hn hvalue, hle, hle'⟩

/-! ## Numbers of units -/

theorem value_mul_five_pow (n k : Nat) : value ⟨n * Nat.pow 5 k, -k⟩ = (n : ℚ) / 2 ^ k := by
  have hten : (10 : ℚ) ^ k = 2 ^ k * 5 ^ k := by
    rw [← mul_pow]
    norm_num
  rw [value, Nat.pow_eq, zpow_neg, zpow_natCast, hten, Nat.cast_mul, Nat.cast_pow, Nat.cast_ofNat]
  field_simp

theorem value_ofUnits (units : Nat) :
    (ofUnits units).value = (units : ℚ) / Binary64.unitsPerOne := by
  have hvalue := value_mul_five_pow units 1074
  rw [Nat.cast_ofNat] at hvalue
  rw [ofUnits, hvalue, Binary64.unitsPerOne_eq, Nat.cast_pow, Nat.cast_ofNat]

theorem mul_five_pow_pos {n : Nat} (h : 0 < n) (k : Nat) : 0 < n * Nat.pow 5 k :=
  Nat.mul_pos h (Nat.pow_pos (by norm_num))

theorem coefficient_ofUnits_pos {units : Nat} (h : 0 < units) :
    0 < (ofUnits units).coefficient := mul_five_pow_pos h 1074

theorem mul_five_pow_lt {n j k : Nat} (hkj : k ≤ j) (h : n < 2 ^ j) :
    n * Nat.pow 5 k < 10 ^ j := by
  calc n * Nat.pow 5 k ≤ n * 5 ^ j :=
        Nat.mul_le_mul_left _ (Nat.pow_le_pow_right (by norm_num) hkj)
    _ < 2 ^ j * 5 ^ j := Nat.mul_lt_mul_of_pos_right h (by positivity)
    _ = 10 ^ j := (mul_pow 2 5 j).symm

theorem leading_ofUnits {units : Nat} (hpos : 0 < units) (h : units < overflowUnits) :
    -1074 ≤ (ofUnits units).leading ∧ (ofUnits units).leading < 1024 := by
  rw [overflowUnits, Binary64.one_shiftLeft_eq] at h
  have hcount := digitCount_le_iff.mpr (mul_five_pow_lt (k := 1074) (by norm_num) h)
  have hcount' := digitCount_pos (mul_five_pow_pos hpos 1074)
  rw [leading, ofUnits]
  simp only
  omega

end Decimal

end CellMachine
