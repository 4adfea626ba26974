import CellMachine.Word

/-!
# CellMachine.Proofs.Word

Words as positions, and word arithmetic where it does not wrap.
-/

namespace CellMachine.Word

/-- The word is one of the positions `0`, …, `n - 1`. -/
def IsPlace (w : Word) (n : Nat) : Prop := 0 ≤ w.toInt ∧ w.toInt < n

instance (w : Word) (n : Nat) : Decidable (w.IsPlace n) := inferInstanceAs (Decidable (_ ∧ _))

theorem place?_of_not_isPlace {w : Word} {n : Nat} (h : ¬w.IsPlace n) : w.place? n = none := by
  unfold IsPlace at h
  rw [place?_eq_none_iff]
  omega

theorem place?_of_toInt_eq {w : Word} {n p : Nat} (h : w.toInt = (p : Int)) (hp : p < n) :
    w.place? n = some ⟨p, hp⟩ := place?_eq_some_iff.mpr h

theorem exists_place? {w : Word} {n : Nat} (h : w.IsPlace n) :
    ∃ i : Fin n, w.place? n = some i ∧ w.toInt = (i.val : Int) := by
  obtain ⟨hnonneg, hlt⟩ := h
  have hi : w.toInt = ((⟨w.toInt.toNat, by omega⟩ : Fin n).val : Int) := by
    show w.toInt = (w.toInt.toNat : Int)
    omega
  exact ⟨_, place?_eq_some_iff.mpr hi, hi⟩

/-- The positions of `n` places are words, and so is `n`. No block of cells is larger. -/
def Covers (n : Nat) : Prop := (n : Int) ≤ Int64.maxValue.toInt

instance (n : Nat) : Decidable (Covers n) := inferInstanceAs (Decidable (_ ≤ _))

theorem toInt_ofNat {n : Nat} (h : Covers n) : (Int64.ofNat n).toInt = (n : Int) := by
  rw [Covers, Int64.toInt_maxValue] at h
  exact Int64.toInt_ofNat_of_lt (by omega)

theorem toInt_neg_ofNat {n : Nat} (h : Covers n) : (-Int64.ofNat n).toInt = -(n : Int) := by
  rw [Covers, Int64.toInt_maxValue] at h
  exact Int64.toInt_neg_ofNat_of_le (by omega)

theorem toInt_ne_zero {w : Word} (h : w ≠ 0) : w.toInt ≠ 0 := by
  rw [← Int64.toInt_zero, ne_eq, Int64.toInt_inj]
  exact h

theorem toInt_add_one {w : Word} {n : Nat} (hn : Covers n) (h : w.toInt < n) :
    (w + 1).toInt = w.toInt + 1 := by
  have hle := w.le_toInt
  rw [Covers, Int64.toInt_maxValue] at hn
  rw [Int64.toInt_add, Int64.toInt_one]
  exact Int.bmod_eq_of_le (by omega) (by omega)

theorem toInt_sub_one {w : Word} (h : 0 ≤ w.toInt) : (w - 1).toInt = w.toInt - 1 := by
  have hlt := w.toInt_lt
  rw [Int64.toInt_sub, Int64.toInt_one]
  exact Int.bmod_eq_of_le (by omega) (by omega)

end CellMachine.Word
