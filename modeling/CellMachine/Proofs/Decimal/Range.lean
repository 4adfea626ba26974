import CellMachine.Proofs.Binary64.Exact
import CellMachine.Registers.Basic

/-!
# CellMachine.Proofs.Decimal.Range

Any three words denote a finite number.

A power of ten may be infinite, but it is never less than one, and a quotient by a number from one
on is finite; by infinity it is zero.

* `Binary64.IsBelow`          — a finite number without a sign, below a power of two.
* `Binary64.AtLeastOne`       — a number from one on, or infinity.
* `Triple.isFinite_toBinary64`, `Binary64.isFinite_ofInt` — what a register file holds is finite.
-/

namespace CellMachine

namespace Binary64

variable {x y : Binary64} {j k : Nat}

/-! ## Bounds -/

/-- A finite number below `2 ^ k`, without a sign. -/
def IsBelow (x : Binary64) (k : Nat) : Prop := ∃ n, x.HasUnits false n ∧ n < 2 ^ k * unitsPerOne

theorem exists_hasUnits_ofRatio {num den : Nat} (s : Bool) (hden : 0 < den)
    (h : num < 2 ^ k * unitsPerOne * den) (hk : k < 1024) :
    ∃ n, (ofRatio s num den).HasUnits s n ∧ n < 2 ^ (k + 1) * unitsPerOne := by
  have hlt := roundUnits_lt hden h
  exact ⟨_, hasUnits_ofRatio (lt_overflowUnits hlt hk), hlt⟩

/-- A whole number of a magnitude that a word may have. -/
theorem exists_hasUnits_of_le {n : Nat} (s : Bool) (h : n ≤ 2 ^ 63) :
    ∃ u, (ofRatio s (n * unitsPerOne) 1).HasUnits s u ∧ u < 2 ^ 65 * unitsPerOne := by
  refine exists_hasUnits_ofRatio s Nat.one_pos ?_ (by norm_num)
  rw [Nat.mul_one]
  exact Nat.mul_lt_mul_of_pos_right (h.trans_lt (by norm_num)) unitsPerOne_pos

theorem isBelow_ofNat {n : Nat} (h : n ≤ 2 ^ 63) : (ofNat n).IsBelow 65 :=
  exists_hasUnits_of_le false h

theorem IsBelow.mono (h : x.IsBelow j) (hjk : j ≤ k) : x.IsBelow k := by
  obtain ⟨n, hn, hlt⟩ := h
  exact ⟨n, hn, hlt.trans_le (Nat.mul_le_mul_right _ (Nat.pow_le_pow_right Nat.two_pos hjk))⟩

theorem IsBelow.add (hx : x.IsBelow k) (hy : y.IsBelow k) (hk : k < 1023) :
    (x.add y).IsBelow (k + 2) := by
  obtain ⟨m, hm, hmlt⟩ := hx
  obtain ⟨n, hn, hnlt⟩ := hy
  have hsum : m + n < 2 ^ (k + 1) * unitsPerOne * 1 := by
    rw [Nat.mul_one, pow_succ, Nat.mul_right_comm]
    omega
  have hlt := roundUnits_lt Nat.one_pos hsum
  exact ⟨_, hm.add hn (lt_overflowUnits hlt (by omega)), hlt⟩

/-! ## Powers of ten -/

/-- A number from one on, or infinity. -/
inductive AtLeastOne : Binary64 → Prop where
  | inf : AtLeastOne (.inf false)
  | finite {x : Binary64} {n : Nat} (h : x.HasUnits false n) (hn : unitsPerOne ≤ n) : AtLeastOne x

theorem atLeastOne_ofRatio {num den : Nat} (hden : 0 < den) (h : unitsPerOne * den ≤ num) :
    (ofRatio false num den).AtLeastOne := by
  have hle : unitsPerOne ≤ roundUnits num den := by
    rw [unitsPerOne_eq] at h ⊢
    exact two_pow_le_roundUnits hden h
  unfold ofRatio
  split
  · exact .finite ⟨_, _, rfl⟩ hle
  · exact .inf

theorem atLeastOne_ofNat {n : Nat} (h : 1 ≤ n) : (ofNat n).AtLeastOne :=
  atLeastOne_ofRatio Nat.one_pos
    (by rw [Nat.mul_one]; exact Nat.le_mul_of_pos_left _ h)

/-- No product of an infinity and zero can occur. -/
theorem AtLeastOne.mul (hx : x.AtLeastOne) (hy : y.AtLeastOne) : (x.mul y).AtLeastOne := by
  cases hx with
  | inf =>
    cases hy with
    | inf => exact .inf
    | finite hn hle =>
      obtain ⟨_, _, rfl⟩ := hn
      simp only [Binary64.mul, if_neg (unitsPerOne_pos.trans_le hle).ne', bne_self_eq_false]
      exact .inf
  | finite hm hmle =>
    obtain ⟨_, _, rfl⟩ := hm
    cases hy with
    | inf =>
      simp only [Binary64.mul, if_neg (unitsPerOne_pos.trans_le hmle).ne', bne_self_eq_false]
      exact .inf
    | finite hn hle =>
      obtain ⟨_, _, rfl⟩ := hn
      exact atLeastOne_ofRatio unitsPerOne_pos (Nat.mul_le_mul hmle hle)

/-- By induction on the digits of the exponent; the squares may become infinite. -/
theorem AtLeastOne.powBits {bits b : Nat} {r a : Binary64} (hr : r.AtLeastOne)
    (ha : a.AtLeastOne) : (powBits bits r a b).AtLeastOne := by
  induction bits generalizing r a b with
  | zero => exact hr
  | succ bits ih =>
    have hstep : (if b % 2 = 1 then r.mul a else r).AtLeastOne := by
      split
      · exact hr.mul ha
      · exact hr
    simp only [Binary64.powBits]
    split
    · exact hstep
    · exact ih hstep (ha.mul ha)

theorem AtLeastOne.pow (h : x.AtLeastOne) (b : Nat) : (x.pow b).AtLeastOne :=
  (atLeastOne_ofNat Nat.le.refl).powBits h

/-- A quotient by infinity is zero. -/
theorem IsBelow.div (hx : x.IsBelow k) (hy : y.AtLeastOne) (hk : k < 1024) :
    (x.div y).IsBelow (k + 1) := by
  obtain ⟨m, hm, hmlt⟩ := hx
  cases hy with
  | inf =>
    obtain ⟨_, _, rfl⟩ := hm
    have hpos := Nat.mul_pos (Nat.two_pow_pos k) unitsPerOne_pos
    exact exists_hasUnits_ofRatio false Nat.one_pos (by rwa [Nat.mul_one]) hk
  | finite hn hle =>
    have hpos := unitsPerOne_pos.trans_le hle
    have hnum := (Nat.mul_lt_mul_of_pos_right hmlt unitsPerOne_pos).trans_le
      (Nat.mul_le_mul_left _ hle)
    have hlt := roundUnits_lt hpos hnum
    exact ⟨_, hm.div hn hpos.ne' (lt_overflowUnits hlt hk), hlt⟩

end Binary64

/-! ## Registers -/

theorem Word.natAbs_le (w : Word) : w.toInt.natAbs ≤ 2 ^ 63 := by
  have hle := w.le_toInt
  have hlt := w.toInt_lt
  omega

theorem Binary64.isFinite_ofInt (w : Word) : (Binary64.ofInt w.toInt).isFinite = true := by
  obtain ⟨n, hn, -⟩ := exists_hasUnits_of_le (decide (w.toInt < 0)) w.natAbs_le
  exact hn.isFinite

/-- The parts may be any words: an integer part or a fraction of the largest magnitude, and any
count of zeros. -/
theorem Triple.isFinite_toBinary64 (t : Triple) : t.toBinary64.isFinite = true := by
  have hpower := (Binary64.atLeastOne_ofNat (by norm_num : 1 ≤ 10)).pow t.fractionPlaces
  have hwhole := Binary64.isBelow_ofNat t.ipart.natAbs_le
  have hfraction := (Binary64.isBelow_ofNat t.frac.natAbs_le).div hpower (by norm_num)
  obtain ⟨n, hn, -⟩ := (hwhole.mono (Nat.le_succ 65)).add hfraction (by norm_num)
  simp only [toBinary64]
  split
  · exact hn.neg.isFinite
  · exact hn.isFinite

end CellMachine
