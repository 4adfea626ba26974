import CellMachine.Decimal.Triple
import Mathlib.Tactic.Positivity
import Mathlib.Tactic.Ring

/-!
# CellMachine.Proofs.Decimal.Digits

The digits of natural numbers.

* `digitCount_le_iff`           — how many there are.
* `Triple.dropZeros_mul_tenPow` — a number without the zeros at its end.
-/

namespace CellMachine

theorem tenPow_eq (n : Nat) : tenPow n = 10 ^ n := rfl

@[simp] theorem digitCount_zero : digitCount 0 = 0 := by
  rw [digitCount, if_pos rfl]

theorem digitCount_of_pos {n : Nat} (h : 0 < n) : digitCount n = digitCount (n / 10) + 1 := by
  rw [digitCount, if_neg h.ne']

theorem digitCount_pos {n : Nat} (h : 0 < n) : 0 < digitCount n := by
  rw [digitCount_of_pos h]
  exact Nat.succ_pos _

theorem digitCount_le_iff {n k : Nat} : digitCount n ≤ k ↔ n < 10 ^ k := by
  induction k generalizing n with
  | zero =>
    rcases Nat.eq_zero_or_pos n with rfl | hpos
    · simp
    · rw [digitCount_of_pos hpos, pow_zero]
      omega
  | succ k ih =>
    rcases Nat.eq_zero_or_pos n with rfl | hpos
    · simp
    · rw [digitCount_of_pos hpos, Nat.add_le_add_iff_right, ih, pow_succ,
        Nat.div_lt_iff_lt_mul (by norm_num)]

/-- The leading digit is not zero. -/
theorem pow_le_of_pos {n : Nat} (h : 0 < n) : 10 ^ (digitCount n - 1) ≤ n := by
  have hcount := digitCount_pos h
  rw [← Nat.not_lt, ← digitCount_le_iff]
  omega

theorem lt_pow_digitCount (n : Nat) : n < 10 ^ digitCount n := digitCount_le_iff.mp (Nat.le_refl _)

/-- Zeros at the end are digits too. -/
theorem digitCount_mul_tenPow {n : Nat} (h : 0 < n) (k : Nat) :
    digitCount (n * 10 ^ k) = digitCount n + k := by
  induction k with
  | zero => rw [pow_zero, Nat.mul_one, Nat.add_zero]
  | succ k ih =>
    rw [digitCount_of_pos (by positivity), pow_succ, ← Nat.mul_assoc,
      Nat.mul_div_cancel _ (by norm_num), ih, Nat.add_assoc]

namespace Triple

theorem dropZeros_zero : dropZeros 0 = 0 := by
  rw [dropZeros, dif_pos (.inl rfl)]

theorem dropZeros_of_mod_ne_zero {n : Nat} (h : n % 10 ≠ 0) : dropZeros n = n := by
  rw [dropZeros, dif_pos (.inr h)]

theorem dropZeros_mul_ten {n : Nat} (h : 0 < n) : dropZeros (n * 10) = dropZeros n := by
  rw [dropZeros, dif_neg (by omega), Nat.mul_div_cancel _ (by norm_num)]

theorem dropZeros_mul_tenPow {n : Nat} (h : n % 10 ≠ 0) (k : Nat) :
    dropZeros (n * 10 ^ k) = n := by
  induction k with
  | zero => rw [pow_zero, Nat.mul_one, dropZeros_of_mod_ne_zero h]
  | succ k ih =>
    have hpos : 0 < n * 10 ^ k := Nat.mul_pos (by omega) (by positivity)
    rw [pow_succ, ← Nat.mul_assoc, dropZeros_mul_ten hpos, ih]

/-- A positive number is its digits and the zeros after them. -/
theorem exists_dropZeros {n : Nat} (h : 0 < n) :
    ∃ k, n = dropZeros n * 10 ^ k ∧ dropZeros n % 10 ≠ 0 := by
  fun_induction dropZeros n with
  | case1 n hn =>
    refine ⟨0, by rw [pow_zero, Nat.mul_one], ?_⟩
    omega
  | case2 n hn ih =>
    obtain ⟨k, hk, hlast⟩ := ih (by omega)
    refine ⟨k + 1, ?_, hlast⟩
    rw [pow_succ, ← Nat.mul_assoc, ← hk]
    omega

end Triple

end CellMachine
