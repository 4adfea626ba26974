import CellMachine.Proofs.Decimal.Rebuild

/-!
# CellMachine.Proofs.Decimal.Sum

Sums of decimals, computed on binary64 numbers, are exact.

Below `2 ^ 31` a rebuilt number is off by `2 ^ -54 + 2 ^ -23` at most, and a sum below `2 ^ 32` by
`2 ^ -22`. Two numbers and their sum together are off by less than half a millionth, so the sum
rounds to the exact one.

* `Binary64.IsNear`                  — a number that stands for a count of millionths.
* `Triple.ofBinary64_add_of_isNear`  — the sum of two such numbers is encoded by the exact sum.
* `Triple.Canonical.ofBinary64_add`, `ofBinary64_sub` — sums and differences of rebuilt numbers.
-/

namespace CellMachine

namespace Binary64

variable {x : Binary64} {k : Int}

/-- `x` is as near to `k` millionths as a number below `2 ^ 31` that was rebuilt from them. -/
def IsNear (x : Binary64) (k : Int) : Prop :=
  ∃ p, x.toRat? = some p ∧ |p - k / 10 ^ 6| ≤ 1 / 2 ^ 54 + 1 / 2 ^ 23

theorem IsNear.neg (h : x.IsNear k) : x.neg.IsNear (-k) := by
  obtain ⟨p, hp, hnear⟩ := h
  refine ⟨-p, toRat?_neg hp, ?_⟩
  rwa [Int.cast_neg, neg_div, neg_sub_neg, abs_sub_comm]

end Binary64

namespace Triple

variable {v x y : Binary64} {p r : ℚ} {k l : Int}

/-- A number is encoded if its integer part, once it is rounded, is a word. -/
theorem exists_ofBinary64 (hp : v.toRat? = some p) (hr : RoundsTo p r)
    (hrange : -2 ^ 63 ≤ truncate r ∧ truncate r < 2 ^ 63) :
    ∃ t, ofBinary64 v = .ok t ∧ t.Canonical ∧ t.exact = r := by
  rcases ofBinary64_cases v with ⟨hnot, -⟩ | ⟨-, ⟨t, ht⟩ | hout⟩
  · rw [Binary64.isFinite_iff.mpr ⟨p, hp⟩] at hnot
    cases hnot
  · obtain ⟨p', r', hp', hr', hcanonical, hexact⟩ := ofBinary64_eq_ok_iff.mp ht
    rw [hp, Option.some.injEq] at hp'
    subst hp'
    exact ⟨t, ht, hcanonical, hexact.trans (hr.unique hr')⟩
  · exact absurd hrange ((ofBinary64_eq_outOfRange_iff hp hr).mp hout)

theorem truncate_of_lt (h : k.natAbs < 2 ^ 63 * 10 ^ 6) :
    -2 ^ 63 ≤ truncate ((k : ℚ) / 10 ^ 6) ∧ truncate ((k : ℚ) / 10 ^ 6) < 2 ^ 63 := by
  have hk : k = Binary64.signed (decide (k < 0)) k.natAbs := by
    simp only [Binary64.signed, decide_eq_true_eq]
    split <;> omega
  rw [hk, truncate_signed]
  simp only [Binary64.signed, decide_eq_true_eq]
  split <;> omega

/-- The three errors together stay below half a millionth. -/
theorem ofBinary64_add_of_isNear (hx : x.IsNear k) (hy : y.IsNear l)
    (hk : k.natAbs < 2 ^ 31 * 10 ^ 6) (hl : l.natAbs < 2 ^ 31 * 10 ^ 6) :
    ∃ t, ofBinary64 (x.add y) = .ok t ∧ t.Canonical ∧ t.exact = ((k + l : Int) : ℚ) / 10 ^ 6 := by
  obtain ⟨p, hp, hpnear⟩ := hx
  obtain ⟨q, hq, hqnear⟩ := hy
  rw [abs_le] at hpnear hqnear
  -- Between the largest count of millionths and the bound there is room for the error.
  have hk' : |(k : ℚ)| ≤ 2 ^ 31 * 10 ^ 6 - 1 := by
    have hle : |k| ≤ 2 ^ 31 * 10 ^ 6 - 1 := by
      rw [Int.abs_eq_natAbs]
      omega
    exact_mod_cast hle
  have hl' : |(l : ℚ)| ≤ 2 ^ 31 * 10 ^ 6 - 1 := by
    have hle : |l| ≤ 2 ^ 31 * 10 ^ 6 - 1 := by
      rw [Int.abs_eq_natAbs]
      omega
    exact_mod_cast hle
  rw [abs_le] at hk' hl'
  have hsum : |p + q| < 2 ^ 32 := by
    rw [abs_lt]
    constructor <;> linarith
  obtain ⟨z, hz, hznear⟩ := Binary64.add_near hp hq (by norm_num) hsum
  rw [abs_le] at hznear
  have hround : RoundsTo z (((k + l : Int) : ℚ) / 10 ^ 6) := by
    refine .of_lt ?_
    rw [Int.cast_add, abs_lt]
    constructor <;> linarith
  exact exists_ofBinary64 hz hround (truncate_of_lt (by omega))

/-! ## Rebuilt numbers -/

variable {t u : Triple}

theorem Canonical.exists_isNear (h : t.Canonical) (hlt : t.ipart.toInt.natAbs < 2 ^ 31) :
    ∃ k : Int, t.exact = k / 10 ^ 6 ∧ t.toBinary64.IsNear k ∧ k.natAbs < 2 ^ 31 * 10 ^ 6 := by
  obtain ⟨p, hp, hnear⟩ := h.toBinary64_near_of_lt (by norm_num) hlt
  refine ⟨_, h.exact_eq, ⟨p, hp, by rwa [h.exact_eq] at hnear⟩, ?_⟩
  have hfrac := h.frac_mul_lt
  rw [Binary64.natAbs_signed, millionths]
  omega

/-- The sum of two numbers that were rebuilt is encoded by the exact sum. -/
theorem Canonical.ofBinary64_add (ht : t.Canonical) (hu : u.Canonical)
    (htlt : t.ipart.toInt.natAbs < 2 ^ 31) (hult : u.ipart.toInt.natAbs < 2 ^ 31) :
    ∃ w, ofBinary64 (t.toBinary64.add u.toBinary64) = .ok w ∧ w.Canonical ∧
      w.exact = t.exact + u.exact := by
  obtain ⟨k, hk, htnear, hklt⟩ := ht.exists_isNear htlt
  obtain ⟨l, hl, hunear, hllt⟩ := hu.exists_isNear hult
  rw [hk, hl, ← add_div, ← Int.cast_add]
  exact ofBinary64_add_of_isNear htnear hunear hklt hllt

theorem Canonical.ofBinary64_sub (ht : t.Canonical) (hu : u.Canonical)
    (htlt : t.ipart.toInt.natAbs < 2 ^ 31) (hult : u.ipart.toInt.natAbs < 2 ^ 31) :
    ∃ w, ofBinary64 (t.toBinary64.sub u.toBinary64) = .ok w ∧ w.Canonical ∧
      w.exact = t.exact - u.exact := by
  obtain ⟨k, hk, htnear, hklt⟩ := ht.exists_isNear htlt
  obtain ⟨l, hl, hunear, hllt⟩ := hu.exists_isNear hult
  rw [hk, hl, ← sub_div, ← Int.cast_sub, Int.sub_eq_add_neg]
  exact ofBinary64_add_of_isNear htnear hunear.neg hklt (by rwa [Int.natAbs_neg])

end Triple

end CellMachine
