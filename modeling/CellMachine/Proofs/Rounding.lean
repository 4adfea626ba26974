import CellMachine.Rounding
import Mathlib.Algebra.Order.Field.Basic
import Mathlib.Algebra.Order.Field.Rat
import Mathlib.Data.Rat.Cast.Order
import Mathlib.Tactic.FieldSimp
import Mathlib.Tactic.Linarith

/-!
# CellMachine.Proofs.Rounding

Rounding to the nearest integer, ties to even, said without the algorithm.

* `IsNearest`            — the integer that a rational number rounds to.
* `isNearest_halfEven`   — a quotient of natural numbers rounds to `halfEven`.
-/

namespace CellMachine

/-- `k` is the integer nearest to `x`; of two that are equally near, it is the even one. -/
structure IsNearest (x : ℚ) (k : Int) : Prop where
  near : |x - k| ≤ 1 / 2
  even : |x - k| = 1 / 2 → Even k

theorem IsNearest.of_lt {x : ℚ} {k : Int} (h : |x - k| < 1 / 2) : IsNearest x k :=
  ⟨h.le, fun heq => absurd heq h.ne⟩

theorem IsNearest.neg {x : ℚ} {k : Int} (h : IsNearest x k) : IsNearest (-x) (-k) := by
  have hflip : |-x - ((-k : Int) : ℚ)| = |x - k| := by
    rw [Int.cast_neg, neg_sub_neg, abs_sub_comm]
  refine ⟨?_, fun heq => ?_⟩
  · rw [hflip]
    exact h.near
  · rw [hflip] at heq
    exact (h.even heq).neg

/-- Two integers that are both nearest differ by one at most, and then both are even. -/
theorem IsNearest.unique {x : ℚ} {j k : Int} (hj : IsNearest x j) (hk : IsNearest x k) : j = k := by
  wlog hle : j ≤ k generalizing j k
  · exact (this hk hj (Int.le_of_not_le hle)).symm
  by_contra hne
  have hlt : (j : ℚ) + 1 ≤ k := by exact_mod_cast (lt_of_le_of_ne hle hne)
  have hj' := abs_le.mp hj.near
  have hk' := abs_le.mp hk.near
  have hxj : x - j = 1 / 2 := by linarith
  have hxk : x - k = -(1 / 2) := by linarith
  have hjeven := hj.even (by rw [hxj]; norm_num)
  have hkeven := hk.even (by rw [hxk, abs_neg]; norm_num)
  have hsucc : k = j + 1 := by
    have : (k : ℚ) = j + 1 := by linarith
    exact_mod_cast this
  rw [hsucc, Int.even_add_one] at hkeven
  exact hkeven hjeven

/-- A quotient that is halfway between two numbers rounds to the even one. -/
theorem even_halfEven {num den : Nat}
    (h : 2 * num = 2 * halfEven num den * den + den ∨ 2 * halfEven num den * den = 2 * num + den)
    (hden : 0 < den) : Even (halfEven num den) := by
  have hdiv := Nat.div_add_mod num den
  have hlt := Nat.mod_lt num hden
  have hcomm : num / den * den = den * (num / den) := Nat.mul_comm _ _
  have hone : (num / den + 1) * den = den * (num / den) + den := by
    rw [Nat.add_mul, Nat.one_mul, hcomm]
  rw [Nat.even_iff]
  simp only [halfEven, Nat.mul_assoc] at h ⊢
  split
  · rename_i hsmall
    rw [if_pos hsmall] at h
    omega
  · rename_i hsmall
    rw [if_neg hsmall] at h
    split
    · rename_i hbig
      rw [if_pos hbig] at h
      omega
    · omega

theorem isNearest_halfEven (num : Nat) {den : Nat} (h : 0 < den) :
    IsNearest (num / den) (halfEven num den : Nat) := by
  have hpos : (0 : ℚ) < den := by exact_mod_cast h
  obtain ⟨hlow, hhigh⟩ := halfEven_near num h
  have hlow' : (2 : ℚ) * num ≤ 2 * halfEven num den * den + den := by exact_mod_cast hlow
  have hhigh' : (2 : ℚ) * halfEven num den * den ≤ 2 * num + den := by exact_mod_cast hhigh
  have hdiff : (num : ℚ) / den - ((halfEven num den : Nat) : Int) =
      (num - halfEven num den * den) / den := by
    rw [Int.cast_natCast]
    field_simp
  refine ⟨?_, fun heq => ?_⟩
  · rw [hdiff, abs_div, abs_of_pos hpos, div_le_iff₀ hpos, abs_le]
    constructor <;> linarith
  · rw [hdiff, abs_div, abs_of_pos hpos, div_eq_iff hpos.ne'] at heq
    refine (Int.even_coe_nat _).mpr (even_halfEven ?_ h)
    rcases (abs_eq (by positivity)).mp heq with heq | heq
    · left
      have : (2 : ℚ) * num = 2 * halfEven num den * den + den := by linarith
      exact_mod_cast this
    · right
      have : (2 : ℚ) * halfEven num den * den = 2 * num + den := by linarith
      exact_mod_cast this

end CellMachine
