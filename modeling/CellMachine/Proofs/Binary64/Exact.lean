import CellMachine.Binary64.Arith
import CellMachine.Proofs.Rounding
import Mathlib.Tactic.Ring

/-!
# CellMachine.Proofs.Binary64.Exact

Binary64 numbers as rational numbers, and how far a rounded result is from the exact one.

* `Binary64.toRat?`          — the exact value of a finite number.
* `Binary64.HasUnits`        — a finite number by its sign and its units.
* `roundUnits_near`          — rounding moves a quotient by half a unit in the last place at most.
* `roundUnits_of_near`       — a quotient nearer than that to a number rounds to it.
* `Binary64.pow_ofNat`       — repeated squaring is exact up to `2 ^ 53`.
-/

namespace CellMachine

theorem hiddenBit_eq : hiddenBit = 2 ^ 52 := by norm_num [hiddenBit]

/-! ## Representable numbers of units -/

theorem representable_mul_two_pow {m : Nat} (h : m ≤ 2 ^ 53) (e : Nat) :
    Representable (m * 2 ^ e) :=
  ⟨m, e, by rw [hiddenBit_eq]; omega, (Nat.shiftLeft_eq m e).symm⟩

/-- A representable number is a multiple of the weight of its fifty-third bit. -/
theorem Representable.dvd {n : Nat} (h : Representable n) : 2 ^ (n.log2 - 52) ∣ n := by
  obtain ⟨m, e, hm, rfl⟩ := h
  rw [Nat.shiftLeft_eq, hiddenBit_eq] at *
  rcases Nat.eq_zero_or_pos (m * 2 ^ e) with hzero | hpos
  · rw [hzero]
    exact dvd_zero _
  rcases Nat.lt_or_ge m (2 ^ 53) with hlt | hge
  · have hlog : (m * 2 ^ e).log2 < 53 + e := by
      rw [Nat.log2_lt hpos.ne', pow_add]
      exact Nat.mul_lt_mul_of_pos_right hlt (by positivity)
    exact Dvd.dvd.mul_left (pow_dvd_pow 2 (by omega)) m
  · obtain rfl : m = 2 ^ 53 := by omega
    rw [← pow_add, Nat.log2_two_pow]
    exact pow_dvd_pow 2 (by omega)

/-- Below `2 ^ (53 + k)` the representable numbers leave a gap of `2 ^ k`. -/
theorem Representable.add_le {n k : Nat} (h : Representable n) (hlt : n < 2 ^ (53 + k)) :
    n + 2 ^ k ≤ 2 ^ (53 + k) := by
  have hpos := Nat.two_pow_pos k
  rcases Nat.lt_or_ge n (2 ^ (52 + k)) with hlow | hhigh
  · rw [pow_add] at hlow ⊢
    omega
  · have hne : n ≠ 0 := ((Nat.two_pow_pos _).trans_le hhigh).ne'
    have hlog : 52 + k ≤ n.log2 := (Nat.le_log2 hne).mpr hhigh
    obtain ⟨q, rfl⟩ := (pow_dvd_pow 2 (by omega : k ≤ n.log2 - 52)).trans h.dvd
    rw [pow_add, Nat.mul_comm (2 ^ k)] at hlt
    have hq : q + 1 ≤ 2 ^ 53 := Nat.lt_of_mul_lt_mul_right hlt
    calc 2 ^ k * q + 2 ^ k = (q + 1) * 2 ^ k := by ring
      _ ≤ 2 ^ 53 * 2 ^ k := Nat.mul_le_mul_right _ hq
      _ = 2 ^ (53 + k) := (pow_add 2 53 k).symm

/-- From `2 ^ (33 + j)` on a representable number is a multiple of `2 ^ j`, or it lies between two
powers of two and its last place is `2 ^ (j - 19)` at least. -/
theorem Representable.dvd_or_exists_last_place {n j : Nat} (h : Representable n) (hj : 19 ≤ j)
    (hge : 2 ^ (33 + j) ≤ n) :
    2 ^ j ∣ n ∨
      ∃ q k, n = q * 2 ^ k ∧ 2 ^ 52 < q ∧ q < 2 ^ 53 ∧ j ≤ 19 + k ∧ k ≤ j := by
  have hne : n ≠ 0 := ((Nat.two_pow_pos _).trans_le hge).ne'
  have hlog : 33 + j ≤ n.log2 := (Nat.le_log2 hne).mpr hge
  obtain ⟨k, hk⟩ : ∃ k, n.log2 = 52 + k := ⟨n.log2 - 52, by omega⟩
  obtain ⟨hlow, hhigh⟩ := (Nat.log2_eq_iff hne).mp hk
  obtain ⟨q, hq⟩ := h.dvd
  rw [hk, Nat.add_sub_cancel_left, Nat.mul_comm] at hq
  rw [hq, pow_add] at hlow
  rw [hq, Nat.add_right_comm, pow_add] at hhigh
  by_cases hwhole : j ≤ k
  · exact .inl (hq ▸ (pow_dvd_pow 2 hwhole).mul_left q)
  -- The only power of two in question is `2 ^ (52 + k)`, which is a multiple of `2 ^ j` itself.
  rcases (Nat.le_of_mul_le_mul_right hlow (Nat.two_pow_pos k)).eq_or_lt with rfl | hqlow
  · rw [← pow_add] at hq
    exact .inl (hq ▸ pow_dvd_pow 2 (by omega))
  · exact .inr ⟨q, k, hq, hqlow, Nat.lt_of_mul_lt_mul_right hhigh, by omega, by omega⟩

namespace Binary64

theorem one_shiftLeft_eq (k : Nat) : 1 <<< k = 2 ^ k := Nat.one_shiftLeft k

theorem unitsPerOne_eq : unitsPerOne = 2 ^ 1074 := one_shiftLeft_eq 1074

theorem unitsPerOne_eq_mul {j k : Nat} (h : j + k = 1074) : unitsPerOne = 2 ^ j * 2 ^ k := by
  rw [unitsPerOne_eq, ← pow_add, h]

theorem unitsPerOne_pos : 0 < unitsPerOne := unitsPerOne_eq ▸ pow_pos Nat.two_pos 1074

theorem representable_units {n : Nat} (h : n ≤ 2 ^ 53) : Representable (n * unitsPerOne) := by
  rw [unitsPerOne_eq]
  exact representable_mul_two_pow h 1074

theorem lt_overflowUnits {n k : Nat} (h : n < 2 ^ k * unitsPerOne) (hk : k ≤ 1024) :
    n < overflowUnits := by
  refine h.trans_le ?_
  rw [unitsPerOne_eq, ← pow_add, overflowUnits, one_shiftLeft_eq]
  exact pow_le_pow_right₀ Nat.one_lt_two.le (by omega)

theorem units_lt_overflowUnits {n : Nat} (h : n ≤ 2 ^ 53) : n * unitsPerOne < overflowUnits :=
  lt_overflowUnits (k := 54)
    (Nat.mul_lt_mul_of_pos_right (h.trans_lt (by norm_num)) unitsPerOne_pos) (by norm_num)

/-! ## Signs -/

@[simp] theorem signed_false (n : Nat) : signed false n = n := rfl

@[simp] theorem signed_true (n : Nat) : signed true n = -(n : Int) := rfl

theorem natAbs_signed (s : Bool) (n : Nat) : (signed s n).natAbs = n := by
  cases s with
  | false => exact Int.natAbs_natCast n
  | true => rw [signed_true, Int.natAbs_neg, Int.natAbs_natCast]

theorem signed_eq_signed_iff {s s' : Bool} {m n : Nat} :
    signed s m = signed s' n ↔ m = n ∧ (n = 0 ∨ s = s') := by
  cases s <;> cases s' <;> simp [signed] <;> omega

theorem abs_signed_div (s : Bool) (m : Nat) {a : ℚ} (ha : 0 < a) :
    |(signed s m : ℚ) / a| = m / a := by
  have hnonneg : 0 ≤ (m : ℚ) / a := by positivity
  cases s with
  | false => rw [signed_false, Int.cast_natCast, abs_of_nonneg hnonneg]
  | true =>
    rw [signed_true, Int.cast_neg, Int.cast_natCast, neg_div, abs_neg,
      abs_of_nonneg hnonneg]

theorem abs_signed_sub_signed (s : Bool) (m n : Nat) (a b : ℚ) :
    |(signed s m : ℚ) / a - (signed s n : ℚ) / b| = |(m : ℚ) / a - n / b| := by
  cases s with
  | false => rw [signed_false, signed_false, Int.cast_natCast, Int.cast_natCast]
  | true =>
    rw [signed_true, signed_true, Int.cast_neg, Int.cast_neg, Int.cast_natCast,
      Int.cast_natCast, neg_div, neg_div, neg_sub_neg, abs_sub_comm]

/-! ## Rounding -/

/-- Rounding leaves what is representable alone. -/
theorem roundUnits_mul_self {n den : Nat} (h : Representable n) (hden : 0 < den) :
    roundUnits (n * den) den = n := by
  obtain ⟨q, hq⟩ := h.dvd
  simp only [roundUnits]
  rw [Nat.mul_div_cancel n hden]
  generalize n.log2 - 52 = k at hq ⊢
  have hscale : n * den = q * (den <<< k) := by
    rw [hq, Nat.shiftLeft_eq]
    ring
  rw [hscale, halfEven_mul_self q (by rw [Nat.shiftLeft_eq]; positivity), Nat.shiftLeft_eq, hq]
  ring

/-- Below `2 ^ (53 + k)` units the last place weighs `2 ^ k` at most. -/
theorem roundUnits_near {num den k : Nat} (hden : 0 < den) (h : num < 2 ^ (53 + k) * den) :
    2 * num ≤ 2 * (roundUnits num den * den) + 2 ^ k * den ∧
      2 * (roundUnits num den * den) ≤ 2 * num + 2 ^ k * den := by
  have hk : (num / den).log2 - 52 ≤ k := by
    rcases Nat.eq_zero_or_pos (num / den) with hzero | hpos
    · rw [hzero, Nat.log2_zero]
      omega
    · have hlog : (num / den).log2 < 53 + k := by
        rw [Nat.log2_lt hpos.ne']
        exact Nat.div_lt_of_lt_mul (by rwa [Nat.mul_comm] at h)
      omega
  simp only [roundUnits]
  generalize (num / den).log2 - 52 = j at hk ⊢
  have hweight : 2 ^ j * den ≤ 2 ^ k * den :=
    Nat.mul_le_mul_right _ (Nat.pow_le_pow_right (by norm_num) hk)
  have hpos : 0 < den <<< j := by
    rw [Nat.shiftLeft_eq]
    positivity
  have hnear := halfEven_near num hpos
  generalize halfEven num (den <<< j) = q at hnear ⊢
  rw [Nat.shiftLeft_eq] at hnear ⊢
  rw [show 2 * q * (den * 2 ^ j) = 2 * (q * 2 ^ j * den) by ring, Nat.mul_comm den] at hnear
  omega

/-- Below `2 ^ j` rounding moves a quotient by `2 ^ (j - 54)` at most. -/
theorem roundUnits_near_of_lt {num den j : Nat} (hden : 0 < den) (hj : j ≤ 53)
    (h : num < 2 ^ j * unitsPerOne * den) :
    2 ^ (54 - j) * num ≤ 2 ^ (54 - j) * (roundUnits num den * den) + unitsPerOne * den ∧
      2 ^ (54 - j) * (roundUnits num den * den) ≤ 2 ^ (54 - j) * num + unitsPerOne * den := by
  have hunits : 2 ^ (53 + (1021 + j)) = 2 ^ j * unitsPerOne := by
    rw [unitsPerOne_eq, ← pow_add]
    congr 1
    omega
  have hlast : unitsPerOne = 2 ^ (53 - j) * 2 ^ (1021 + j) := unitsPerOne_eq_mul (by omega)
  obtain ⟨hbelow, habove⟩ := roundUnits_near (k := 1021 + j) hden (by rwa [hunits])
  rw [show 54 - j = 53 - j + 1 by omega, pow_succ, hlast, Nat.mul_assoc, Nat.mul_assoc,
    Nat.mul_assoc, ← Nat.mul_add, ← Nat.mul_add]
  exact ⟨Nat.mul_le_mul_left _ hbelow, Nat.mul_le_mul_left _ habove⟩

/-- A quotient is rounded to no more than the next power of two. -/
theorem roundUnits_lt {num den k : Nat} (hden : 0 < den) (h : num < 2 ^ k * unitsPerOne * den) :
    roundUnits num den < 2 ^ (k + 1) * unitsPerOne := by
  have hunits : 2 ^ (53 + (1021 + k)) = 2 ^ k * unitsPerOne := by
    rw [unitsPerOne_eq, ← pow_add]
    congr 1
    omega
  have hnear := (roundUnits_near (k := 1021 + k) hden (by rwa [hunits])).2
  have hlast : 2 ^ (1021 + k) * den < 2 ^ k * unitsPerOne * den := by
    rw [← hunits]
    exact Nat.mul_lt_mul_of_pos_right (Nat.pow_lt_pow_right Nat.one_lt_two (by omega)) hden
  refine Nat.lt_of_mul_lt_mul_right (a := den) ?_
  rw [pow_succ, Nat.mul_right_comm _ 2, Nat.mul_right_comm _ 2]
  omega

theorem roundUnits_lt_overflowUnits {num den k : Nat} (hden : 0 < den)
    (h : num < 2 ^ k * unitsPerOne * den) (hk : k < 1024) :
    roundUnits num den < overflowUnits :=
  lt_overflowUnits (roundUnits_lt hden h) hk

/-- Rounding does not go below a power of two. -/
theorem two_pow_le_roundUnits {num den e : Nat} (hden : 0 < den) (h : 2 ^ e * den ≤ num) :
    2 ^ e ≤ roundUnits num den := by
  have hquot : 2 ^ e ≤ num / den := (Nat.le_div_iff_mul_le hden).mpr h
  have hne : num / den ≠ 0 := ((Nat.two_pow_pos e).trans_le hquot).ne'
  have hlog : e ≤ (num / den).log2 := (Nat.le_log2 hne).mpr hquot
  have hself := Nat.log2_self_le hne
  simp only [roundUnits, Nat.shiftLeft_eq]
  generalize hk : (num / den).log2 - 52 = k
  have hsplit : 2 ^ (num / den).log2 = 2 ^ ((num / den).log2 - k) * 2 ^ k := by
    rw [← pow_add]
    congr 1
    omega
  have hfloor : 2 ^ ((num / den).log2 - k) ≤ num / (den * 2 ^ k) := by
    rwa [← Nat.div_div_eq_div_mul, Nat.le_div_iff_mul_le (Nat.two_pow_pos k), ← hsplit]
  calc 2 ^ e ≤ 2 ^ (num / den).log2 := Nat.pow_le_pow_right Nat.two_pos hlog
    _ = 2 ^ ((num / den).log2 - k) * 2 ^ k := hsplit
    _ ≤ num / (den * 2 ^ k) * 2 ^ k := Nat.mul_le_mul_right _ hfloor
    _ ≤ halfEven num (den * 2 ^ k) * 2 ^ k := Nat.mul_le_mul_right _ (div_le_halfEven _ _)

/-- As a rational number, a count of units below `2 ^ j` is moved by `2 ^ (j - 54)` at most. -/
theorem abs_roundUnits_sub_le {n j : Nat} (hj : j ≤ 53) (h : n < 2 ^ j * unitsPerOne) :
    |(roundUnits n 1 : ℚ) / unitsPerOne - n / unitsPerOne| ≤ 1 / 2 ^ (54 - j) := by
  have hpos : (0 : ℚ) < unitsPerOne := by exact_mod_cast unitsPerOne_pos
  have hweight : (0 : ℚ) < 2 ^ (54 - j) := by positivity
  obtain ⟨hbelow, habove⟩ := roundUnits_near_of_lt Nat.one_pos hj (by rwa [Nat.mul_one])
  rw [Nat.mul_one, Nat.mul_one] at hbelow habove
  have hbelow' : (2 : ℚ) ^ (54 - j) * n ≤ 2 ^ (54 - j) * roundUnits n 1 + unitsPerOne := by
    exact_mod_cast hbelow
  have habove' : (2 : ℚ) ^ (54 - j) * roundUnits n 1 ≤ 2 ^ (54 - j) * n + unitsPerOne := by
    exact_mod_cast habove
  rw [← sub_div, abs_div, abs_of_pos hpos, div_le_div_iff₀ hpos hweight, ← abs_of_pos hweight,
    ← abs_mul, abs_le]
  constructor <;> linarith

/-- Between `2 ^ 52` and `2 ^ 53` last places, a number nearer than half of one to a multiple of it
rounds to that multiple. -/
theorem roundUnits_of_near {n q k : Nat} (hlow : 2 ^ 52 < q) (hhigh : q < 2 ^ 53)
    (hbelow : 2 * n < 2 * (q * 2 ^ k) + 2 ^ k) (habove : 2 * (q * 2 ^ k) < 2 * n + 2 ^ k) :
    roundUnits n 1 = q * 2 ^ k := by
  have hpos := Nat.two_pow_pos k
  have hlog : n.log2 = 52 + k := by
    have hfloor : (2 ^ 52 + 1) * 2 ^ k ≤ q * 2 ^ k := Nat.mul_le_mul_right _ hlow
    have hceil : q * 2 ^ k ≤ (2 ^ 53 - 1) * 2 ^ k := Nat.mul_le_mul_right _ (by omega)
    rw [Nat.log2_eq_iff (by omega), Nat.add_right_comm, pow_add, pow_add]
    omega
  have hnear : IsNearest (n / (2 ^ k : Nat)) q := by
    have hpos' : (0 : ℚ) < (2 ^ k : Nat) := by exact_mod_cast hpos
    have hbelow' : (2 : ℚ) * n < 2 * (q * (2 ^ k : Nat)) + (2 ^ k : Nat) := by exact_mod_cast hbelow
    have habove' : (2 : ℚ) * (q * (2 ^ k : Nat)) < 2 * n + (2 ^ k : Nat) := by exact_mod_cast habove
    have hdiff : (n : ℚ) / (2 ^ k : Nat) - (q : Int) = (n - q * (2 ^ k : Nat)) / (2 ^ k : Nat) := by
      rw [Int.cast_natCast]
      field_simp
    refine .of_lt ?_
    rw [hdiff, abs_div, abs_of_pos hpos', div_lt_iff₀ hpos', abs_lt]
    constructor <;> linarith
  have hhalf := (isNearest_halfEven n hpos).unique hnear
  simp only [roundUnits, Nat.div_one, hlog, Nat.add_sub_cancel_left, Nat.shiftLeft_eq]
  rw [Nat.one_mul, show halfEven n (2 ^ k) = q by exact_mod_cast hhalf]

/-! ## Exact values -/

/-- The exact value of a finite number. -/
def toRat? : Binary64 → Option ℚ
  | .finite negative units _ _ => some ((signed negative units : ℚ) / unitsPerOne)
  | _ => none

/-- A finite number with this sign and so many units. -/
def HasUnits (x : Binary64) (negative : Bool) (n : Nat) : Prop :=
  ∃ h h', x = .finite negative n h h'

variable {x y : Binary64} {s : Bool} {m n : Nat}

theorem HasUnits.toRat? (h : x.HasUnits s n) :
    x.toRat? = some ((signed s n : ℚ) / unitsPerOne) := by
  obtain ⟨_, _, rfl⟩ := h
  rfl

theorem isFinite_iff : x.isFinite = true ↔ ∃ p, x.toRat? = some p := by
  cases x with
  | nan => exact ⟨nofun, nofun⟩
  | inf s => exact ⟨nofun, nofun⟩
  | finite s n hr hu => exact ⟨fun _ => ⟨_, rfl⟩, fun _ => rfl⟩

theorem HasUnits.isFinite (h : x.HasUnits s n) : x.isFinite = true := isFinite_iff.mpr ⟨_, h.toRat?⟩

/-- A significand that is shifted by `k` counts units of `2 ^ -j`. -/
theorem HasUnits.toRat?_of_shiftLeft {j k : Nat} (h : x.HasUnits s (m <<< k))
    (hjk : j + k = 1074) : x.toRat? = some ((signed s m : ℚ) / 2 ^ j) := by
  have hpos : (2 : ℚ) ^ k ≠ 0 := by positivity
  rw [h.toRat?, unitsPerOne_eq_mul hjk, Nat.shiftLeft_eq, Nat.cast_mul, Nat.cast_pow, Nat.cast_pow,
    Nat.cast_ofNat]
  cases s with
  | false =>
    rw [signed_false, signed_false, Int.cast_natCast, Int.cast_natCast, Nat.cast_mul, Nat.cast_pow,
      Nat.cast_ofNat, mul_div_mul_right _ _ hpos]
  | true =>
    rw [signed_true, signed_true, Int.cast_neg, Int.cast_neg, Int.cast_natCast, Int.cast_natCast,
      Nat.cast_mul, Nat.cast_pow, Nat.cast_ofNat, ← neg_mul, mul_div_mul_right _ _ hpos]

theorem exists_hasUnits {p : ℚ} (h : x.toRat? = some p) :
    ∃ s n, x.HasUnits s n ∧ p = (signed s n : ℚ) / unitsPerOne := by
  cases x with
  | nan => cases h
  | inf s => cases h
  | finite s n hr hu =>
    cases h
    exact ⟨s, n, ⟨hr, hu, rfl⟩, rfl⟩

theorem toRat?_neg {p : ℚ} (h : x.toRat? = some p) : x.neg.toRat? = some (-p) := by
  obtain ⟨s, n, ⟨_, _, rfl⟩, rfl⟩ := exists_hasUnits h
  show some ((signed (!s) n : ℚ) / unitsPerOne) = _
  cases s <;> simp [neg_div]

/-- The order of finite numbers is that of their exact values. -/
theorem compare_of_toRat? {p q : ℚ} (hx : x.toRat? = some p) (hy : y.toRat? = some q) :
    x.compare y = some (Ord.compare p q) := by
  have hpos : (0 : ℚ) < unitsPerOne := by exact_mod_cast unitsPerOne_pos
  obtain ⟨s, m, ⟨_, _, rfl⟩, rfl⟩ := exists_hasUnits hx
  obtain ⟨t, n, ⟨_, _, rfl⟩, rfl⟩ := exists_hasUnits hy
  refine congrArg some ?_
  rcases lt_trichotomy (signed s m) (signed t n) with h | h | h
  · have hdiv : (signed s m : ℚ) / unitsPerOne < signed t n / unitsPerOne :=
      div_lt_div_of_pos_right (by exact_mod_cast h) hpos
    rw [compare_lt_iff_lt.mpr h, compare_lt_iff_lt.mpr hdiv]
  · rw [h, compare_eq_iff_eq.mpr rfl, compare_eq_iff_eq.mpr rfl]
  · have hdiv : (signed t n : ℚ) / unitsPerOne < signed s m / unitsPerOne :=
      div_lt_div_of_pos_right (by exact_mod_cast h) hpos
    rw [compare_gt_iff_gt.mpr h, compare_gt_iff_gt.mpr hdiv]

theorem HasUnits.unique (hx : x.HasUnits s n) (hy : y.HasUnits s n) : x = y := by
  obtain ⟨_, _, rfl⟩ := hx
  obtain ⟨_, _, rfl⟩ := hy
  rfl

theorem hasUnits_ofRatio {num den : Nat} (h : roundUnits num den < overflowUnits) :
    (ofRatio s num den).HasUnits s (roundUnits num den) :=
  ⟨_, h, dif_pos h⟩

/-- A whole number of representable units is converted exactly. -/
theorem hasUnits_ofNat (h : Representable (n * unitsPerOne))
    (hlt : n * unitsPerOne < overflowUnits) : (ofNat n).HasUnits false (n * unitsPerOne) := by
  have hround : roundUnits (n * unitsPerOne) 1 = n * unitsPerOne := by
    have hself := roundUnits_mul_self h Nat.one_pos
    rwa [Nat.mul_one] at hself
  have hunits := hasUnits_ofRatio (s := false) (hround.trans_lt hlt)
  rwa [hround] at hunits

theorem hasUnits_ofNat_of_le (h : n ≤ 2 ^ 53) : (ofNat n).HasUnits false (n * unitsPerOne) :=
  hasUnits_ofNat (representable_units h) (units_lt_overflowUnits h)

theorem HasUnits.neg (h : x.HasUnits s n) : x.neg.HasUnits (!s) n := by
  obtain ⟨hr, hu, rfl⟩ := h
  exact ⟨hr, hu, rfl⟩

theorem HasUnits.add (hx : x.HasUnits false m) (hy : y.HasUnits false n)
    (h : roundUnits (m + n) 1 < overflowUnits) :
    (x.add y).HasUnits false (roundUnits (m + n) 1) := by
  obtain ⟨_, _, rfl⟩ := hx
  obtain ⟨_, _, rfl⟩ := hy
  have hsum : signed false m + signed false n = ((m + n : Nat) : Int) := by
    rw [signed_false, signed_false, Nat.cast_add]
  have hnonneg : ¬((m + n : Nat) : Int) < 0 := by omega
  simp only [Binary64.add, hsum, Int.natAbs_natCast, decide_eq_false hnonneg, Bool.and_self]
  split
  · rename_i hzero
    rw [show m + n = 0 by omega] at h ⊢
    exact hasUnits_ofRatio h
  · exact hasUnits_ofRatio h

/-- Numbers of any sign: the sum of the signed units is rounded. -/
theorem HasUnits.add_signed {t : Bool} (hx : x.HasUnits s m) (hy : y.HasUnits t n)
    (h : roundUnits (signed s m + signed t n).natAbs 1 < overflowUnits) :
    ∃ u, signed u (signed s m + signed t n).natAbs = signed s m + signed t n ∧
      (x.add y).HasUnits u (roundUnits (signed s m + signed t n).natAbs 1) := by
  obtain ⟨_, _, rfl⟩ := hx
  obtain ⟨_, _, rfl⟩ := hy
  generalize hsum : signed s m + signed t n = sum at h ⊢
  simp only [Binary64.add, hsum]
  split
  · rename_i hzero
    rw [hzero] at h ⊢
    refine ⟨s && t, ?_, hasUnits_ofRatio h⟩
    cases s && t <;> rfl
  · refine ⟨decide (sum < 0), ?_, hasUnits_ofRatio h⟩
    simp only [signed, decide_eq_true_eq]
    split <;> omega

theorem HasUnits.div (hx : x.HasUnits false m) (hy : y.HasUnits false n) (hn : n ≠ 0)
    (h : roundUnits (m * unitsPerOne) n < overflowUnits) :
    (x.div y).HasUnits false (roundUnits (m * unitsPerOne) n) := by
  obtain ⟨_, _, rfl⟩ := hx
  obtain ⟨_, _, rfl⟩ := hy
  simp only [Binary64.div, if_neg hn, bne_self_eq_false]
  exact hasUnits_ofRatio h

/-- The sum of two numbers is off by `2 ^ (j - 54)` at most if it is below `2 ^ j`. -/
theorem add_near {p q : ℚ} {j : Nat} (hx : x.toRat? = some p) (hy : y.toRat? = some q)
    (hj : j ≤ 53) (h : |p + q| < 2 ^ j) :
    ∃ r, (x.add y).toRat? = some r ∧ |r - (p + q)| ≤ 1 / 2 ^ (54 - j) := by
  have hpos : (0 : ℚ) < unitsPerOne := by exact_mod_cast unitsPerOne_pos
  obtain ⟨s, m, hxm, rfl⟩ := exists_hasUnits hx
  obtain ⟨t, n, hyn, rfl⟩ := exists_hasUnits hy
  have hsum : (signed s m : ℚ) / unitsPerOne + (signed t n : ℚ) / unitsPerOne =
      ((signed s m + signed t n : Int) : ℚ) / unitsPerOne := by
    rw [Int.cast_add, add_div]
  have hlt : (signed s m + signed t n).natAbs < 2 ^ j * unitsPerOne := by
    rw [hsum, abs_div, abs_of_pos hpos, div_lt_iff₀ hpos, ← Int.cast_abs, Int.abs_eq_natAbs] at h
    exact_mod_cast h
  have hfinite := roundUnits_lt_overflowUnits Nat.one_pos (by rwa [Nat.mul_one])
    (by omega : j < 1024)
  obtain ⟨u, hu, hunits⟩ := hxm.add_signed hyn hfinite
  refine ⟨_, hunits.toRat?, ?_⟩
  rw [hsum, ← hu, natAbs_signed, abs_signed_sub_signed]
  exact abs_roundUnits_sub_le hj hlt

/-! ## Powers -/

theorem mul_ofNat (hm : m ≤ 2 ^ 53) (hn : n ≤ 2 ^ 53) (h : m * n ≤ 2 ^ 53) :
    (ofNat m).mul (ofNat n) = ofNat (m * n) := by
  obtain ⟨_, _, hx⟩ := hasUnits_ofNat_of_le hm
  obtain ⟨_, _, hy⟩ := hasUnits_ofNat_of_le hn
  have hround : roundUnits (m * unitsPerOne * (n * unitsPerOne)) unitsPerOne =
      m * n * unitsPerOne := by
    rw [show m * unitsPerOne * (n * unitsPerOne) = m * n * unitsPerOne * unitsPerOne by ring]
    exact roundUnits_mul_self (representable_units h) unitsPerOne_pos
  have hunits := hasUnits_ofRatio (s := false) (hround.trans_lt (units_lt_overflowUnits h))
  rw [hround] at hunits
  rw [hx, hy]
  exact hunits.unique (hasUnits_ofNat_of_le h)

/-- The squares that are used are not beyond the power itself, so they are exact too. By induction
on the digits of the exponent. -/
theorem powBits_ofNat {bits r a b : Nat} (hr : 1 ≤ r) (ha : 1 ≤ a) (hb : b < 2 ^ bits)
    (h : r * a ^ b ≤ 2 ^ 53) : powBits bits (ofNat r) (ofNat a) b = ofNat (r * a ^ b) := by
  induction bits generalizing r a b with
  | zero =>
    obtain rfl : b = 0 := by omega
    rw [pow_zero, Nat.mul_one]
    rfl
  | succ bits ih =>
    have hpow : a ^ b = (a * a) ^ (b / 2) * a ^ (b % 2) := by
      rw [← pow_two, ← pow_mul, ← pow_add, Nat.div_add_mod]
    have hle : ∀ c, 1 ≤ a ^ c := fun c => Nat.one_le_pow c a ha
    have hstep : (if b % 2 = 1 then (ofNat r).mul (ofNat a) else ofNat r) =
        ofNat (r * a ^ (b % 2)) := by
      have hprod : r * a ^ (b % 2) ≤ 2 ^ 53 :=
        (Nat.mul_le_mul_left r (Nat.pow_le_pow_right ha (Nat.mod_le b 2))).trans h
      split
      · rename_i hodd
        rw [hodd, pow_one] at hprod ⊢
        exact mul_ofNat (Nat.le_of_mul_le_mul_right (by nlinarith) ha)
          (Nat.le_of_mul_le_mul_left (by nlinarith) hr) hprod
      · rename_i heven
        rw [show b % 2 = 0 by omega, pow_zero, Nat.mul_one]
    simp only [powBits, hstep]
    split
    · rename_i hhalf
      rw [hpow, hhalf, pow_zero, Nat.one_mul]
    · rename_i hhalf
      have hsquare : a * a ≤ 2 ^ 53 := by
        calc a * a = a ^ 2 := (pow_two a).symm
          _ ≤ a ^ b := Nat.pow_le_pow_right ha (by omega)
          _ ≤ r * a ^ b := Nat.le_mul_of_pos_left _ hr
          _ ≤ 2 ^ 53 := h
      have hbase : a ≤ 2 ^ 53 := (Nat.le_mul_of_pos_left a ha).trans hsquare
      have hrest : r * a ^ (b % 2) * (a * a) ^ (b / 2) = r * a ^ b := by
        rw [hpow]
        ring
      rw [mul_ofNat hbase hbase hsquare, ← hrest]
      refine ih (Nat.mul_pos hr (hle _)) (Nat.mul_pos ha ha) ?_ (hrest.trans_le h)
      rw [Nat.div_lt_iff_lt_mul (by norm_num), ← pow_succ]
      exact hb

theorem pow_ofNat {a b : Nat} (ha : 1 ≤ a) (h : a ^ b ≤ 2 ^ 53) :
    (ofNat a).pow b = ofNat (a ^ b) := by
  have hbits := powBits_ofNat (r := 1) Nat.le.refl ha Nat.lt_log2_self (by rwa [Nat.one_mul])
  rwa [Nat.one_mul] at hbits

end Binary64

end CellMachine
