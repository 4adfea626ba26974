/-!
# CellMachine.Rounding

A quotient of natural numbers rounded to a natural number: to the nearest one, a half to the even
neighbour.
-/

namespace CellMachine

/-- `num / den` rounded to the nearest natural number, ties to even. -/
def halfEven (num den : Nat) : Nat :=
  let q := num / den
  let r := num % den
  if 2 * r < den then q
  else if den < 2 * r then q + 1
  else q + q % 2

theorem div_le_halfEven (num den : Nat) : num / den ≤ halfEven num den := by
  simp only [halfEven]
  split
  · exact Nat.le_refl _
  · split <;> omega

theorem halfEven_le_succ_div (num den : Nat) : halfEven num den ≤ num / den + 1 := by
  simp only [halfEven]
  split
  · omega
  · split <;> omega

/-- Rounding moves a quotient by half a unit at most. -/
theorem halfEven_near (num : Nat) {den : Nat} (h : 0 < den) :
    2 * num ≤ 2 * halfEven num den * den + den ∧ 2 * halfEven num den * den ≤ 2 * num + den := by
  have hdiv := Nat.div_add_mod num den
  have hlt := Nat.mod_lt num h
  have hcomm : num / den * den = den * (num / den) := Nat.mul_comm _ _
  have hone : (num / den + 1) * den = den * (num / den) + den := by
    rw [Nat.add_mul, Nat.one_mul, hcomm]
  simp only [halfEven, Nat.mul_assoc]
  split
  · omega
  · split
    · omega
    · rcases Nat.mod_two_eq_zero_or_one (num / den) with h0 | h0
      · rw [h0, Nat.add_zero]
        omega
      · rw [h0]
        omega

/-- An exact quotient is left alone. -/
theorem halfEven_mul_self (n : Nat) {den : Nat} (h : 0 < den) : halfEven (n * den) den = n := by
  simp [halfEven, Nat.mul_div_cancel _ h, h]

end CellMachine
