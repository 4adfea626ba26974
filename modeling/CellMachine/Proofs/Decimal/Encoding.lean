import CellMachine.Proofs.Binary64.Exact
import CellMachine.Proofs.Decimal.Fixed
import Mathlib.Data.Rat.Floor

/-!
# CellMachine.Proofs.Decimal.Encoding

The triple of a number is exact to six places.

* `RoundsTo`                      — a number rounded to six decimal places, ties to even.
* `Triple.ofBinary64_eq_ok_iff`   — the triple of a number is the canonical one of the rounded number.
* `Triple.ofBinary64_eq_rounded`  — this, which numbers have no triple, and why.
-/

namespace CellMachine

/-! ## Rounding to six places -/

/-- `r` is the multiple of a millionth nearest to `x`; of two, it is the even one. -/
def RoundsTo (x r : ℚ) : Prop := ∃ k : Int, IsNearest (x * 10 ^ 6) k ∧ r = k / 10 ^ 6

namespace RoundsTo

variable {x r r' : ℚ}

theorem unique (h : RoundsTo x r) (h' : RoundsTo x r') : r' = r := by
  obtain ⟨k, hk, rfl⟩ := h
  obtain ⟨k', hk', rfl⟩ := h'
  rw [hk'.unique hk]

theorem near (h : RoundsTo x r) : |r - x| ≤ 5 / 10 ^ 7 := by
  obtain ⟨k, hk, rfl⟩ := h
  have hnear := abs_le.mp hk.near
  rw [abs_le]
  constructor <;> linarith

/-- A multiple of a millionth that is nearer than half of one is the nearest. -/
theorem of_lt {k : Int} (h : |x - k / 10 ^ 6| < 5 / 10 ^ 7) : RoundsTo x (k / 10 ^ 6) := by
  refine ⟨k, .of_lt ?_, rfl⟩
  rw [abs_lt] at h ⊢
  constructor <;> linarith

end RoundsTo

/-- The integer part, toward zero. -/
def truncate (r : ℚ) : Int := if r < 0 then ⌈r⌉ else ⌊r⌋

theorem truncate_neg (r : ℚ) : truncate (-r) = -truncate r := by
  unfold truncate
  rcases lt_trichotomy r 0 with hr | rfl | hr
  · rw [if_neg (by linarith), if_pos hr, Int.floor_neg]
  · rw [neg_zero, if_neg (lt_irrefl 0), Int.floor_zero, neg_zero]
  · rw [if_pos (by linarith), if_neg (by linarith), Int.ceil_neg]

theorem truncate_natCast_div (n k : Nat) : truncate ((n : ℚ) / k) = ((n / k : Nat) : Int) := by
  rw [truncate, if_neg (not_lt.mpr (by positivity)), Rat.floor_natCast_div_natCast,
    Int.natCast_div]

theorem truncate_signed (s : Bool) (n : Nat) :
    truncate ((Binary64.signed s n : ℚ) / 10 ^ 6) = Binary64.signed s (n / 10 ^ 6) := by
  have hnat : truncate ((n : ℚ) / 10 ^ 6) = ((n / 10 ^ 6 : Nat) : Int) := by
    have hdiv := truncate_natCast_div n (10 ^ 6)
    rwa [Nat.cast_pow, Nat.cast_ofNat] at hdiv
  cases s with
  | false => rw [Binary64.signed_false, Binary64.signed_false, Int.cast_natCast, hnat]
  | true =>
    rw [Binary64.signed_true, Binary64.signed_true, Int.cast_neg, Int.cast_natCast, neg_div,
      truncate_neg, hnat]

/-! ## Triples -/

theorem Word.ofInt?_eq_none_iff {z : Int} : Word.ofInt? z = none ↔ ¬(-2 ^ 63 ≤ z ∧ z < 2 ^ 63) := by
  unfold Word.ofInt?
  rw [Int64.toInt_minValue, Int64.toInt_maxValue]
  split
  · rename_i hz
    exact ⟨nofun, fun hn => absurd ⟨hz.1, by omega⟩ hn⟩
  · rename_i hz
    exact ⟨fun _ hn => hz ⟨hn.1, by omega⟩, fun _ => rfl⟩

namespace Triple

variable {t : Triple} {v : Binary64} {x r : ℚ}

/-- A finite number rounds to its count of millionths. -/
theorem roundsTo_signed (s : Bool) (units : Nat) :
    RoundsTo ((Binary64.signed s units : ℚ) / Binary64.unitsPerOne)
      ((Binary64.signed s (halfEven (units * 10 ^ 6) Binary64.unitsPerOne) : ℚ) / 10 ^ 6) := by
  have hnear := isNearest_halfEven (units * 10 ^ 6) Binary64.unitsPerOne_pos
  have hscale : (units : ℚ) / Binary64.unitsPerOne * 10 ^ 6 =
      ((units * 10 ^ 6 : Nat) : ℚ) / Binary64.unitsPerOne := by
    rw [Nat.cast_mul, Nat.cast_pow, Nat.cast_ofNat]
    ring
  refine ⟨_, ?_, rfl⟩
  cases s with
  | false => rwa [Binary64.signed_false, Binary64.signed_false, Int.cast_natCast, hscale]
  | true =>
    rw [Binary64.signed_true, Binary64.signed_true, Int.cast_neg, Int.cast_natCast, neg_div,
      neg_mul, hscale]
    exact hnear.neg

theorem Canonical.exact_eq_iff {s : Bool} {n : Nat} (h : t.Canonical) :
    t.exact = (Binary64.signed s n : ℚ) / 10 ^ 6 ↔
      t.millionths = n ∧ (n = 0 ∨ t.isNegative = s) := by
  rw [h.exact_eq, div_left_inj' (by positivity), Int.cast_inj, Binary64.signed_eq_signed_iff]

/-- The triple of a number is the canonical one of the number rounded to six places. -/
theorem ofBinary64_eq_ok_iff :
    ofBinary64 v = .ok t ↔
      ∃ x r, v.toRat? = some x ∧ RoundsTo x r ∧ t.Canonical ∧ t.exact = r := by
  cases v with
  | nan => exact ⟨nofun, nofun⟩
  | inf s => exact ⟨nofun, nofun⟩
  | finite s units hr hu =>
    have hround := roundsTo_signed s units
    rw [ofBinary64_finite_eq_ok_iff]
    constructor
    · rintro ⟨h, hexact⟩
      exact ⟨_, _, rfl, hround, h, h.exact_eq_iff.mpr hexact⟩
    · rintro ⟨x, r, hx, hr, h, rfl⟩
      cases hx
      exact ⟨h, h.exact_eq_iff.mp (hround.unique hr)⟩

/-- A number has no triple if the integer part of the rounded number is no word. -/
theorem ofBinary64_eq_outOfRange_iff (hx : v.toRat? = some x) (hr : RoundsTo x r) :
    ofBinary64 v = .error (.outOfRange v) ↔ ¬(-2 ^ 63 ≤ truncate r ∧ truncate r < 2 ^ 63) := by
  cases v with
  | nan => cases hx
  | inf s => cases hx
  | finite s units hrep hu =>
    cases hx
    rw [(roundsTo_signed s units).unique hr, truncate_signed, ← Word.ofInt?_eq_none_iff,
      ← ofMillionths?_eq_none_iff, ofBinary64_finite]
    generalize ofMillionths? s _ = o
    cases o with
    | none => exact ⟨fun _ => rfl, fun _ => rfl⟩
    | some t => exact ⟨nofun, nofun⟩

/-- A number has no triple only if it is not finite, or out of range. -/
theorem ofBinary64_cases (v : Binary64) :
    (v.isFinite = false ∧ ofBinary64 v = .error (.notFinite v)) ∨
      v.isFinite = true ∧ ((∃ t, ofBinary64 v = .ok t) ∨ ofBinary64 v = .error (.outOfRange v)) := by
  cases v with
  | nan => exact .inl ⟨rfl, rfl⟩
  | inf s => exact .inl ⟨rfl, rfl⟩
  | finite s units hr hu =>
    refine .inr ⟨rfl, ?_⟩
    rw [ofBinary64_finite]
    generalize ofMillionths? s _ = o
    cases o with
    | none => exact .inr rfl
    | some t => exact .inl ⟨t, rfl⟩

theorem notFinite_iff (v : Binary64) :
    ofBinary64 v = .error (.notFinite v) ↔ v = .nan ∨ ∃ s, v = .inf s := by
  rcases ofBinary64_cases v with ⟨hnot, hv⟩ | ⟨hfin, hv⟩
  · cases v with
    | nan => exact ⟨fun _ => .inl rfl, fun _ => hv⟩
    | inf s => exact ⟨fun _ => .inr ⟨s, rfl⟩, fun _ => hv⟩
    | finite s units hr hu => cases hnot
  · constructor
    · intro he
      rcases hv with ⟨t, hv⟩ | hv <;> rw [hv] at he <;> cases he
    · rintro (rfl | ⟨s, rfl⟩) <;> cases hfin

theorem exists_roundsTo (h : v.isFinite = true) : ∃ x r, v.toRat? = some x ∧ RoundsTo x r := by
  cases v with
  | nan => cases h
  | inf s => cases h
  | finite s units hr hu => exact ⟨_, _, rfl, roundsTo_signed s units⟩

/-- Only infinities and NaN are not finite. Every other number is rounded to six places, and encoded
by the one canonical triple that denotes the rounded number, unless its integer part is no word.
Its fixed-point text is read alike, so none is malformed. -/
theorem ofBinary64_eq_rounded (v : Binary64) :
    (ofBinary64 v = .error (.notFinite v) ↔ v = .nan ∨ ∃ s, v = .inf s) ∧
    (∀ e, ofBinary64 v = .error e → e = .notFinite v ∨ e = .outOfRange v) ∧
    (v.isFinite = true →
      ofText v.fixed = (ofBinary64 v).mapError (fun _ => .outOfRange) ∧
      ∃ x r, v.toRat? = some x ∧ RoundsTo x r ∧ (∀ r', RoundsTo x r' → r' = r) ∧
        |r - x| ≤ 5 / 10 ^ 7 ∧
        (ofBinary64 v = .error (.outOfRange v) ↔ ¬(-2 ^ 63 ≤ truncate r ∧ truncate r < 2 ^ 63)) ∧
        (-2 ^ 63 ≤ truncate r ∧ truncate r < 2 ^ 63 →
          ∃ t, ofBinary64 v = .ok t ∧ t.Canonical ∧ t.exact = r ∧
            ∀ u : Triple, u.Canonical → u.exact = r → u = t)) := by
  refine ⟨notFinite_iff v, fun e he => ?_, fun h => ?_⟩
  · rcases ofBinary64_cases v with ⟨-, hv⟩ | ⟨-, ⟨t, hv⟩ | hv⟩ <;> rw [hv] at he <;> cases he
    · exact .inl rfl
    · exact .inr rfl
  · obtain ⟨x, r, hx, hr⟩ := exists_roundsTo h
    have hrange := ofBinary64_eq_outOfRange_iff hx hr
    refine ⟨ofText_fixed h, x, r, hx, hr, fun r' => hr.unique, hr.near, hrange, fun hin => ?_⟩
    rcases ofBinary64_cases v with ⟨hnot, -⟩ | ⟨-, ⟨t, ht⟩ | hout⟩
    · rw [h] at hnot
      cases hnot
    · obtain ⟨x', r', hx', hr', hcanonical, hexact⟩ := ofBinary64_eq_ok_iff.mp ht
      rw [hx, Option.some.injEq] at hx'
      subst hx'
      obtain rfl := hr.unique hr'
      refine ⟨t, ht, hcanonical, hexact, fun u hu hur => ?_⟩
      exact hu.eq_of_exact_eq hcanonical (hur.trans hexact.symm)
    · exact absurd hin (hrange.mp hout)

/-- The number `-1 / 128` is halfway between two multiples of a millionth. -/
theorem ofBinary64_eq_rounded_tie :
    ∃ t, ofBinary64 (.ofBits 0xBF80000000000000) = .ok t ∧ t.Canonical ∧
      t.exact = (-7812 : Int) / 10 ^ 6 := by
  obtain ⟨-, -, hrounded⟩ := ofBinary64_eq_rounded (.ofBits 0xBF80000000000000)
  obtain ⟨-, x, r, hx, -, hunique, -, -, hin⟩ := hrounded rfl
  have hunits : (Binary64.ofBits 0xBF80000000000000).HasUnits true (1 <<< 1067) := ⟨_, _, rfl⟩
  have hvalue : x = -1 / 128 := by
    rw [hunits.toRat?_of_shiftLeft (j := 7) rfl, Option.some.injEq] at hx
    rw [← hx, Binary64.signed_true]
    norm_num
  have hround : RoundsTo x ((-7812 : Int) / 10 ^ 6) := by
    refine ⟨-7812, ⟨?_, fun _ => by decide⟩, rfl⟩
    rw [hvalue, abs_le]
    constructor <;> norm_num
  have hr := hunique _ hround
  obtain ⟨t, ht, hcanonical, hexact, -⟩ := hin (by
    rw [← hr, truncate]
    norm_num)
  exact ⟨t, ht, hcanonical, hexact.trans hr.symm⟩

end Triple

end CellMachine
