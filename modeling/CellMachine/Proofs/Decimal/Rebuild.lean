import CellMachine.Proofs.Decimal.Encoding

/-!
# CellMachine.Proofs.Decimal.Rebuild

The number rebuilt from a triple, and the way back. Magnitudes are compared in units.

Below `2 ^ 33` the quotient and the sum together are off by less than half a millionth, so the
rebuilt number rounds to the same triple. From `2 ^ 33` on the last place of a number weighs more
than that, and the sum rounds to the number that was encoded.

* `Triple.Canonical.toBinary64_near`    — a rebuilt number is near to what the triple denotes.
* `Triple.toBinary64_of_ofBinary64`     — a large number is rebuilt exactly.
* `Triple.ofBinary64_toBinary64_stable` — encoding a rebuilt number gives the triple back.
* `Triple.toBinary64_ofBinary64_near`   — encoding and rebuilding a number hardly moves it.
-/

namespace CellMachine

open Binary64 (unitsPerOne unitsPerOne_pos unitsPerOne_eq roundUnits signed)

namespace Triple

variable {t : Triple} {v : Binary64} {x y : ℚ}

/-! ## The quotient and the sum -/

/-- The fraction of a triple as a quotient of binary64 numbers, in units. -/
def fractionUnits (t : Triple) : Nat :=
  roundUnits (t.frac.toInt.natAbs * unitsPerOne * unitsPerOne) (10 ^ t.usedPlaces * unitsPerOne)

/-- The magnitude of a triple in units, before the sum is rounded. -/
def sumUnits (t : Triple) : Nat := t.ipart.toInt.natAbs * unitsPerOne + t.fractionUnits

theorem fractionUnits_near (t : Triple) :
    2 ^ 54 * (t.frac.toInt.natAbs * unitsPerOne) ≤
        2 ^ 54 * (t.fractionUnits * 10 ^ t.usedPlaces) + unitsPerOne * 10 ^ t.usedPlaces ∧
      2 ^ 54 * (t.fractionUnits * 10 ^ t.usedPlaces) ≤
        2 ^ 54 * (t.frac.toInt.natAbs * unitsPerOne) + unitsPerOne * 10 ^ t.usedPlaces := by
  have hpos := unitsPerOne_pos
  have hlt := t.frac_lt
  unfold fractionUnits
  generalize t.frac.toInt.natAbs = f at hlt ⊢
  have hden : 0 < 10 ^ t.usedPlaces * unitsPerOne := by positivity
  have hnum : f * unitsPerOne * unitsPerOne <
      2 ^ 0 * unitsPerOne * (10 ^ t.usedPlaces * unitsPerOne) := by
    calc f * unitsPerOne * unitsPerOne
        < 10 ^ t.usedPlaces * unitsPerOne * unitsPerOne := by gcongr
      _ = 2 ^ 0 * unitsPerOne * (10 ^ t.usedPlaces * unitsPerOne) := by ring
  obtain ⟨hbelow, habove⟩ := Binary64.roundUnits_near_of_lt hden (Nat.zero_le _) hnum
  generalize roundUnits _ _ = q at hbelow habove ⊢
  rw [Nat.sub_zero] at hbelow habove
  constructor
  · refine Nat.le_of_mul_le_mul_right ?_ hpos
    linarith
  · refine Nat.le_of_mul_le_mul_right ?_ hpos
    linarith

theorem fractionUnits_lt (t : Triple) : t.fractionUnits < 2 * unitsPerOne := by
  have habove := t.fractionUnits_near.2
  have hpos := unitsPerOne_pos
  have hlt := Nat.mul_lt_mul_of_pos_right t.frac_lt hpos
  refine Nat.lt_of_mul_lt_mul_right (a := 10 ^ t.usedPlaces) ?_
  generalize t.frac.toInt.natAbs * unitsPerOne = f at habove hlt
  rw [Nat.mul_comm] at hlt
  rw [Nat.mul_assoc]
  omega

theorem sumUnits_of_frac_eq_zero (h : t.frac.toInt.natAbs = 0) :
    t.sumUnits = t.ipart.toInt.natAbs * unitsPerOne := by
  have hzero : t.fractionUnits = 0 := by
    have hden : 0 < 10 ^ t.usedPlaces * unitsPerOne := Nat.mul_pos (by positivity) unitsPerOne_pos
    have hself := Binary64.roundUnits_mul_self (n := 0) ⟨0, 0, Nat.zero_le _, rfl⟩ hden
    rw [Nat.zero_mul] at hself
    rw [fractionUnits, h, Nat.zero_mul, Nat.zero_mul, hself]
  rw [sumUnits, hzero, Nat.add_zero]

theorem Canonical.sumUnits_near (h : t.Canonical) :
    2 ^ 54 * (t.millionths * unitsPerOne) ≤
        2 ^ 54 * (t.sumUnits * 10 ^ 6) + 10 ^ 6 * unitsPerOne ∧
      2 ^ 54 * (t.sumUnits * 10 ^ 6) ≤
        2 ^ 54 * (t.millionths * unitsPerOne) + 10 ^ 6 * unitsPerOne := by
  obtain ⟨hbelow, habove⟩ := t.fractionUnits_near
  have hpow : 10 ^ 6 = 10 ^ t.usedPlaces * 10 ^ (6 - t.usedPlaces) := by
    rw [← pow_add, Nat.add_sub_cancel' h.usedPlaces_le]
  unfold millionths sumUnits
  generalize t.ipart.toInt.natAbs = i
  generalize t.frac.toInt.natAbs = f at hbelow habove ⊢
  generalize 10 ^ (6 - t.usedPlaces) = rest at hpow ⊢
  have hbelow' := Nat.mul_le_mul_right rest hbelow
  have habove' := Nat.mul_le_mul_right rest habove
  rw [hpow]
  constructor <;> linarith

theorem Canonical.fractionPlaces_eq (h : t.Canonical) : t.fractionPlaces = t.usedPlaces := by
  have hle := h.usedPlaces_le
  rw [usedPlaces] at hle
  rw [fractionPlaces, usedPlaces, maxPlaces]
  omega

/-- Both operations, where neither overflows. -/
theorem Canonical.hasUnits_toBinary64 (h : t.Canonical)
    (hr : Representable (t.ipart.toInt.natAbs * unitsPerOne))
    (hlt : t.ipart.toInt.natAbs * unitsPerOne < overflowUnits)
    (hsum : roundUnits t.sumUnits 1 < overflowUnits) :
    t.toBinary64.HasUnits t.isNegative (roundUnits t.sumUnits 1) := by
  have hpow : 10 ^ t.usedPlaces ≤ 10 ^ 6 := Nat.pow_le_pow_right (by norm_num) h.usedPlaces_le
  have hden : (Binary64.ofNat 10).pow t.fractionPlaces = Binary64.ofNat (10 ^ t.usedPlaces) := by
    rw [h.fractionPlaces_eq, Binary64.pow_ofNat (by norm_num) (hpow.trans (by norm_num))]
  have hfrac : t.frac.toInt.natAbs ≤ 2 ^ 53 := (t.frac_lt.le.trans hpow).trans (by norm_num)
  have hquotient := (Binary64.hasUnits_ofNat_of_le hfrac).div
    (Binary64.hasUnits_ofNat_of_le (hpow.trans (by norm_num)))
    (Nat.mul_pos (by positivity) unitsPerOne_pos).ne'
    (t.fractionUnits_lt.trans (Binary64.units_lt_overflowUnits (by norm_num)))
  have hmagnitude := (Binary64.hasUnits_ofNat hr hlt).add hquotient hsum
  simp only [toBinary64, hden]
  split
  · rename_i hneg
    rw [hneg]
    exact hmagnitude.neg
  · rename_i hneg
    rw [Bool.not_eq_true] at hneg
    rw [hneg]
    exact hmagnitude

/-! ## Below `2 ^ 33` -/

/-- The sum before it is rounded is off by the error of the quotient. -/
theorem Canonical.abs_sumUnits_sub_le (h : t.Canonical) :
    |(t.sumUnits : ℚ) / unitsPerOne - t.millionths / 10 ^ 6| ≤ 1 / 2 ^ 54 := by
  have hpos : (0 : ℚ) < unitsPerOne := by exact_mod_cast unitsPerOne_pos
  obtain ⟨hbelow, habove⟩ := h.sumUnits_near
  have hbelow' : (2 : ℚ) ^ 54 * (t.millionths * unitsPerOne) ≤
      2 ^ 54 * (t.sumUnits * 10 ^ 6) + 10 ^ 6 * unitsPerOne := by exact_mod_cast hbelow
  have habove' : (2 : ℚ) ^ 54 * (t.sumUnits * 10 ^ 6) ≤
      2 ^ 54 * (t.millionths * unitsPerOne) + 10 ^ 6 * unitsPerOne := by exact_mod_cast habove
  generalize (unitsPerOne : ℚ) = one at hpos hbelow' habove' ⊢
  rw [abs_sub_le_iff, div_sub_div _ _ hpos.ne' (by positivity),
    div_sub_div _ _ (by positivity) hpos.ne', div_le_div_iff₀ (by positivity) (by positivity),
    div_le_div_iff₀ (by positivity) (by positivity)]
  constructor <;> linarith

/-- Below `2 ^ j` the quotient is off by `2 ^ -54` at most and the sum by `2 ^ (j - 54)`. -/
theorem Canonical.toBinary64_near_of_lt {j : Nat} (h : t.Canonical) (hj : j ≤ 53)
    (hlt : t.ipart.toInt.natAbs < 2 ^ j) :
    ∃ y, t.toBinary64.toRat? = some y ∧ |y - t.exact| ≤ 1 / 2 ^ 54 + 1 / 2 ^ (54 - j) := by
  have hle : t.ipart.toInt.natAbs ≤ 2 ^ 53 :=
    hlt.le.trans (Nat.pow_le_pow_right Nat.two_pos hj)
  have hsum : t.sumUnits < 2 ^ j * unitsPerOne := by
    have hpos := unitsPerOne_pos
    have hfrac := h.frac_mul_lt
    have habove := h.sumUnits_near.2
    have hmillionths : t.millionths + 1 ≤ 2 ^ j * 10 ^ 6 := by
      rw [millionths]
      omega
    have hmax := Nat.mul_le_mul_right unitsPerOne hmillionths
    rw [Nat.add_mul, Nat.one_mul, Nat.mul_right_comm] at hmax
    omega
  have hfinite := Binary64.roundUnits_lt_overflowUnits Nat.one_pos (by rwa [Nat.mul_one])
    (by omega : j < 1024)
  have hunits := h.hasUnits_toBinary64 (Binary64.representable_units hle)
    (Binary64.units_lt_overflowUnits hle) hfinite
  refine ⟨_, hunits.toRat?, ?_⟩
  rw [h.exact_eq, Binary64.abs_signed_sub_signed]
  refine (abs_sub_le _ ((t.sumUnits : ℚ) / unitsPerOne) _).trans ?_
  rw [add_comm]
  exact add_le_add h.abs_sumUnits_sub_le (Binary64.abs_roundUnits_sub_le hj hsum)

/-- Below `2 ^ 33` a rebuilt number is off by less than half a millionth. -/
theorem Canonical.toBinary64_near (h : t.Canonical) (hlt : t.ipart.toInt.natAbs < 2 ^ 33) :
    ∃ y, t.toBinary64.toRat? = some y ∧ |y - t.exact| < 5 / 10 ^ 7 := by
  obtain ⟨y, hy, hnear⟩ := h.toBinary64_near_of_lt (by norm_num) hlt
  exact ⟨y, hy, hnear.trans_lt (by norm_num)⟩

/-- A rebuilt number rounds to the number that the triple denotes. -/
theorem Canonical.ofBinary64_toBinary64 (h : t.Canonical)
    (hlt : t.ipart.toInt.natAbs < 2 ^ 33) : ofBinary64 t.toBinary64 = .ok t := by
  obtain ⟨y, hy, hnear⟩ := h.toBinary64_near hlt
  refine ofBinary64_eq_ok_iff.mpr ⟨y, t.exact, hy, ?_, h, rfl⟩
  rw [h.exact_eq] at hnear ⊢
  exact .of_lt hnear

/-! ## From `2 ^ 33` on -/

theorem ipart_le_millionths (t : Triple) :
    t.ipart.toInt.natAbs * unitsPerOne * 10 ^ 6 ≤ t.millionths * unitsPerOne := by
  rw [Nat.mul_right_comm]
  exact Nat.mul_le_mul_right _ (Nat.le_add_right _ _)

/-- The six places of a triple are off by half a millionth at most. -/
theorem millionths_near {n : Nat} (h : t.millionths = halfEven (n * 10 ^ 6) unitsPerOne) :
    2 * (n * 10 ^ 6) ≤ 2 * (t.millionths * unitsPerOne) + unitsPerOne ∧
      2 * (t.millionths * unitsPerOne) ≤ 2 * (n * 10 ^ 6) + unitsPerOne := by
  have hnear := halfEven_near (n * 10 ^ 6) unitsPerOne_pos
  rwa [← h, Nat.mul_assoc 2 t.millionths] at hnear

/-- A whole number has no fraction, so nothing is rounded. -/
theorem Canonical.sumUnits_of_whole {w : Nat} (h : t.Canonical) (hw : t.millionths = w * 10 ^ 6) :
    t.ipart.toInt.natAbs = w ∧ t.sumUnits = w * unitsPerOne := by
  have hlt := h.frac_mul_lt
  rw [millionths] at hw
  have hipart : t.ipart.toInt.natAbs = w := by omega
  have hfrac : t.frac.toInt.natAbs * 10 ^ (6 - t.usedPlaces) = 0 := by omega
  refine ⟨hipart, ?_⟩
  rw [← hipart]
  exact sumUnits_of_frac_eq_zero
    ((Nat.mul_eq_zero.mp hfrac).resolve_right (Nat.pow_pos (by norm_num)).ne')

/-- The sum is nearer to the encoded number than half of its last place: the six places are off by
half a millionth at most, and the quotient by `2 ^ -54`. -/
theorem Canonical.roundUnits_sumUnits_of_near {q k : Nat} (h : t.Canonical)
    (hn : t.millionths = halfEven (q * 2 ^ k * 10 ^ 6) unitsPerOne)
    (hlow : 2 ^ 52 < q) (hhigh : q < 2 ^ 53) (hlast : unitsPerOne ≤ 2 ^ 19 * 2 ^ k)
    (hle : 2 ^ k ≤ unitsPerOne) :
    t.ipart.toInt.natAbs ≤ 2 ^ 53 ∧ roundUnits t.sumUnits 1 = q * 2 ^ k := by
  have hpos := unitsPerOne_pos
  obtain ⟨hbelow, habove⟩ := h.sumUnits_near
  obtain ⟨hround, hround'⟩ := millionths_near hn
  have hipart := t.ipart_le_millionths
  have hmax : q * 2 ^ k ≤ 2 ^ 53 * unitsPerOne := Nat.mul_le_mul hhigh.le hle
  generalize t.millionths * unitsPerOne = m at hbelow habove hround hround' hipart
  constructor
  · refine Nat.le_of_lt_succ (Nat.lt_of_mul_lt_mul_right (a := unitsPerOne) ?_)
    rw [Nat.succ_mul]
    omega
  · refine Binary64.roundUnits_of_near hlow hhigh ?_ ?_
    · omega
    · omega

theorem Canonical.roundUnits_sumUnits {n : Nat} (h : t.Canonical) (hr : Representable n)
    (hu : n < overflowUnits) (hn : t.millionths = halfEven (n * 10 ^ 6) unitsPerOne)
    (hge : 2 ^ 33 * unitsPerOne ≤ n) :
    Representable (t.ipart.toInt.natAbs * unitsPerOne) ∧
      t.ipart.toInt.natAbs * unitsPerOne < overflowUnits ∧ roundUnits t.sumUnits 1 = n := by
  have hge' := hge
  rw [unitsPerOne_eq, ← pow_add] at hge'
  -- From `2 ^ 53` on every number is whole, and may be too long for the bound on other whole parts.
  rcases hr.dvd_or_exists_last_place (by norm_num) hge' with hdvd | ⟨q, k, rfl, hlow, hhigh, hj, hk⟩
  · rw [← unitsPerOne_eq] at hdvd
    obtain ⟨w, rfl⟩ := hdvd
    rw [Nat.mul_comm unitsPerOne, Nat.mul_right_comm, halfEven_mul_self _ unitsPerOne_pos] at hn
    obtain ⟨hipart, hsum⟩ := h.sumUnits_of_whole hn
    have hself := Binary64.roundUnits_mul_self hr Nat.one_pos
    rw [hipart, hsum, Nat.mul_comm w]
    rw [Nat.mul_one] at hself
    exact ⟨hr, hu, hself⟩
  · have hlast : unitsPerOne ≤ 2 ^ 19 * 2 ^ k := by
      rw [← pow_add]
      exact unitsPerOne_eq.trans_le (pow_le_pow_right₀ (by norm_num) hj)
    have hle : 2 ^ k ≤ unitsPerOne :=
      (pow_le_pow_right₀ (by norm_num) hk).trans_eq unitsPerOne_eq.symm
    obtain ⟨hipart, hround⟩ := h.roundUnits_sumUnits_of_near hn hlow hhigh hlast hle
    exact ⟨Binary64.representable_units hipart, Binary64.units_lt_overflowUnits hipart, hround⟩

/-- A large number is rebuilt exactly. -/
theorem toBinary64_of_ofBinary64 {s : Bool} {n : Nat} {hr : Representable n}
    {hu : n < overflowUnits} (h : ofBinary64 (.finite s n hr hu) = .ok t)
    (hge : 2 ^ 33 * unitsPerOne ≤ n) : t.toBinary64 = .finite s n hr hu := by
  obtain ⟨hcanonical, hmillionths, hsign⟩ := ofBinary64_finite_eq_ok_iff.mp h
  obtain ⟨hr', hlt, hround⟩ := hcanonical.roundUnits_sumUnits hr hu hmillionths hge
  have hunits := hcanonical.hasUnits_toBinary64 hr' hlt (hround.trans_lt hu)
  -- Only zero could have lost its sign.
  have hne : halfEven (n * 10 ^ 6) unitsPerOne ≠ 0 := by
    have hnear := (millionths_near hmillionths).1
    have hpos := unitsPerOne_pos
    intro hzero
    rw [hmillionths, hzero] at hnear
    omega
  rw [hround, hsign.resolve_left hne] at hunits
  exact hunits.unique ⟨hr, hu, rfl⟩

/-- Of a number below `2 ^ 33`, six places do not reach `2 ^ 33`. -/
theorem ipart_lt_of_ofBinary64 {s : Bool} {n : Nat} {hr : Representable n}
    {hu : n < overflowUnits} (h : ofBinary64 (.finite s n hr hu) = .ok t)
    (hlt : n < 2 ^ 33 * unitsPerOne) : t.ipart.toInt.natAbs < 2 ^ 33 := by
  obtain ⟨-, hmillionths, -⟩ := ofBinary64_finite_eq_ok_iff.mp h
  have hnear := (millionths_near hmillionths).2
  have hpos := unitsPerOne_pos
  have hscale : unitsPerOne = 2 ^ 20 * 2 ^ 1054 := Binary64.unitsPerOne_eq_mul rfl
  -- The last number before `2 ^ 33` is `2 ^ -20` below it, which is more than half a millionth.
  have hgap : n + 2 ^ 1054 ≤ 2 ^ 53 * 2 ^ 1054 := by
    rw [← pow_add]
    refine hr.add_le ?_
    rwa [pow_add, show 53 = 33 + 20 from rfl, pow_add, Nat.mul_assoc, ← hscale]
  have hipart := t.ipart_le_millionths
  refine Nat.lt_of_mul_lt_mul_right (a := unitsPerOne) ?_
  generalize t.millionths * unitsPerOne = m at hnear hipart
  generalize 2 ^ 1054 = gap at hscale hgap
  omega

/-! ## Round trips -/

/-- A number that has a triple is below `2 ^ 33`, and so is its triple, or it is rebuilt exactly. -/
theorem ofBinary64_regimes (h : ofBinary64 v = .ok t) (hx : v.toRat? = some x) :
    |x| < 2 ^ 33 ∧ t.ipart.toInt.natAbs < 2 ^ 33 ∨ 2 ^ 33 ≤ |x| ∧ t.toBinary64 = v := by
  cases v with
  | nan => cases hx
  | inf s => cases hx
  | finite s n hr hu =>
    have hpos : (0 : ℚ) < unitsPerOne := by exact_mod_cast unitsPerOne_pos
    rw [← Option.some.inj hx, Binary64.abs_signed_div s n hpos, div_lt_iff₀ hpos, le_div_iff₀ hpos]
    rcases Nat.lt_or_ge n (2 ^ 33 * unitsPerOne) with hlt | hge
    · exact .inl ⟨by exact_mod_cast hlt, ipart_lt_of_ofBinary64 h hlt⟩
    · exact .inr ⟨by exact_mod_cast hge, toBinary64_of_ofBinary64 h hge⟩

/-- Encoding what was rebuilt gives the same triple, for every triple of a number and for every
canonical one with a small integer part. -/
theorem ofBinary64_toBinary64_stable :
    (∀ v t, ofBinary64 v = .ok t → ofBinary64 t.toBinary64 = .ok t) ∧
      ∀ t : Triple, t.Canonical → t.ipart.toInt.natAbs < 2 ^ 33 →
        ofBinary64 t.toBinary64 = .ok t := by
  refine ⟨fun v t h => ?_, fun t h hlt => h.ofBinary64_toBinary64 hlt⟩
  obtain ⟨x, r, hx, -, hcanonical, -⟩ := ofBinary64_eq_ok_iff.mp h
  rcases ofBinary64_regimes h hx with ⟨-, hlt⟩ | ⟨-, hself⟩
  · exact hcanonical.ofBinary64_toBinary64 hlt
  · rwa [hself]

theorem ofBinary64_toBinary64_stable_zeros :
    Canonical ⟨-1, 5, 2⟩ ∧ ofBinary64 (toBinary64 ⟨-1, 5, 2⟩) = .ok ⟨-1, 5, 2⟩ := by
  have hcount : usedPlaces ⟨-1, 5, 2⟩ ≤ 6 := by
    rw [usedPlaces, show (5 : Word).toInt.natAbs = 5 from rfl]
    simp [digitCount]
  have h : Canonical ⟨-1, 5, 2⟩ := ⟨by decide, by decide, by decide, fun _ => hcount, by decide⟩
  obtain ⟨hnumber, htriple⟩ := ofBinary64_toBinary64_stable
  exact ⟨h, hnumber _ _ (htriple _ h (by decide))⟩

theorem compare_self (hx : v.toRat? = some x) : v.compare v = some .eq := by
  rw [Binary64.compare_of_toRat? hx hx, compare_eq_iff_eq.mpr rfl]

/-- A number that is encoded and rebuilt is moved by less than a millionth, and from `2 ^ 33` on it
is not moved at all. -/
theorem toBinary64_ofBinary64_near (h : ofBinary64 v = .ok t) :
    ∃ x y, v.toRat? = some x ∧ t.toBinary64.toRat? = some y ∧ |y - x| < 1 / 10 ^ 6 ∧
      (2 ^ 33 ≤ |x| → t.toBinary64.compare v = some .eq) := by
  obtain ⟨x, r, hx, hr, hcanonical, hexact⟩ := ofBinary64_eq_ok_iff.mp h
  rcases ofBinary64_regimes h hx with ⟨hsmall, hlt⟩ | ⟨-, hself⟩
  · obtain ⟨y, hy, hnear⟩ := hcanonical.toBinary64_near hlt
    refine ⟨x, y, hx, hy, ?_, fun hge => absurd hsmall (not_lt.mpr hge)⟩
    rw [hexact] at hnear
    calc |y - x| ≤ |y - r| + |r - x| := abs_sub_le y r x
      _ < 5 / 10 ^ 7 + 5 / 10 ^ 7 := add_lt_add_of_lt_of_le hnear hr.near
      _ = 1 / 10 ^ 6 := by norm_num
  · rw [hself]
    refine ⟨x, x, hx, hx, ?_, fun _ => compare_self hx⟩
    rw [sub_self, abs_zero]
    positivity

/-- The number `2 ^ 33 + 1 / 2`. -/
theorem toBinary64_ofBinary64_near_large :
    ofBinary64 (.ofBits 0x4200000000040000) = .ok ⟨8589934592, 5, 0⟩ ∧
      (toBinary64 ⟨8589934592, 5, 0⟩).compare (.ofBits 0x4200000000040000) = some .eq := by
  have hx : (Binary64.ofBits 0x4200000000040000).toRat? = some (2 ^ 33 + 1 / 2) := by
    have hunits : (Binary64.ofBits 0x4200000000040000).HasUnits false ((2 ^ 34 + 1) <<< 1073) :=
      ⟨_, _, rfl⟩
    rw [hunits.toRat?_of_shiftLeft (j := 1) rfl, Binary64.signed_false]
    norm_num
  have hround : RoundsTo (2 ^ 33 + 1 / 2) ((8589934592500000 : Int) / 10 ^ 6) := by
    refine .of_lt ?_
    norm_num
  have hcount : usedPlaces ⟨8589934592, 5, 0⟩ = 1 := by
    rw [usedPlaces, show (5 : Word).toInt.natAbs = 5 from rfl]
    simp [digitCount]
  have hexact : exact ⟨8589934592, 5, 0⟩ = (8589934592500000 : Int) / 10 ^ 6 := by
    simp only [exact, hcount, show isNegative ⟨8589934592, 5, 0⟩ = false from rfl,
      show (8589934592 : Word).toInt.natAbs = 8589934592 from rfl,
      show (5 : Word).toInt.natAbs = 5 from rfl]
    norm_num
  have h : ofBinary64 (.ofBits 0x4200000000040000) = .ok ⟨8589934592, 5, 0⟩ :=
    ofBinary64_eq_ok_iff.mpr ⟨_, _, hx, hround,
      ⟨by decide, by decide, by decide, fun _ => hcount.trans_le (by norm_num), by decide⟩, hexact⟩
  obtain ⟨x, _, hx', _, _, hequal⟩ := toBinary64_ofBinary64_near h
  rw [hx, Option.some.injEq] at hx'
  refine ⟨h, hequal ?_⟩
  rw [← hx', abs_of_pos (by positivity)]
  norm_num

end Triple

end CellMachine
