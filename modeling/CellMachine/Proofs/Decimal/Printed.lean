import CellMachine.Proofs.Decimal.General

/-!
# CellMachine.Proofs.Decimal.Printed

A value rounded once is printed as by way of the two styles, which round it twice.

* `scientific_digits`, `positional_digits` — the significant digits as each style leaves them.
* `Binary64.generalText?_eq_general`       — the texts of the general format.
-/

namespace CellMachine

open Decimal

variable {units p n precision : Nat} {e : Int}

/-! ## Digits as each style leaves them -/

theorem scientific_eq (digits : List Char) (e : Int) :
    scientific digits e = pointed digits ++ exponentMark e := by
  match digits with
  | [] => rfl
  | [_] => rfl
  | _ :: _ :: _ => rfl

theorem pointed_cons (c : Char) (cs : List Char) : pointed (c :: cs) = c :: point cs := by
  cases cs <;> rfl

theorem scientific_digits (h : Significand units p n e) (hp : 0 < p) :
    scientific (dropTrailingZeros (Nat.toDigits 10 n)) e =
      stripZeros (withPlaces (p - 1) n) ++ exponentMark e := by
  have htidy : (Written.ofDigits false (p - 1) n (some e)).Tidy :=
    Written.tidy_ofDigits false fun _ => ⟨h.low, by rw [Nat.sub_add_cancel hp]; exact h.high⟩
  obtain ⟨c, hc, hne⟩ := htidy.one_digit nofun
  have hc : Nat.toDigits 10 (n / 10 ^ (p - 1)) = [c] := hc
  have hstrip := stripZeros_withPlaces false (p - 1) n
  rw [hc] at hstrip
  rw [toDigits_eq_append h.low, hc, List.singleton_append, dropTrailingZeros_cons hne,
    scientific_eq, pointed_cons]
  exact congrArg (· ++ exponentMark e) hstrip.symm

/-- A magnitude below one: zeros stand between the point and the digits. -/
theorem positional_of_neg {places : Nat} (h : Significand units p n e)
    (hplaces : (places : Int) = p - 1 - e) (hp : 0 < p) (he : e < 0) :
    positional (dropTrailingZeros (Nat.toDigits 10 n)) e = stripZeros (withPlaces places n) := by
  have hlt : n < 10 ^ places :=
    h.high.trans_le (Nat.pow_le_pow_right (by norm_num) (by omega))
  have hne : dropTrailingZeros (Nat.toDigits 10 n) ≠ [] := by
    rw [dropTrailingZeros_toDigits h.pos]
    exact Nat.toDigits_ne_nil
  have hpadded : padded places n =
      List.replicate (-e - 1).toNat '0' ++ Nat.toDigits 10 n := by
    rw [padded, if_neg (by omega), List.leftpad, h.length hp]
    congr 2
    omega
  have hstrip := stripZeros_withPlaces false places n
  rw [Nat.div_eq_of_lt hlt, Nat.mod_eq_of_lt hlt, hpadded, dropTrailingZeros_append hne,
    point_of_ne_nil (List.append_ne_nil_of_right_ne_nil _ hne)] at hstrip
  rw [positional, if_pos he]
  exact hstrip.symm

/-- A magnitude of one or more: the digits go on to the point, with zeros where they end before. -/
theorem positional_of_nonneg {places : Nat} (h : Significand units p n e)
    (hplaces : (places : Int) = p - 1 - e) (hp : 0 < p) (he : 0 ≤ e) :
    positional (dropTrailingZeros (Nat.toDigits 10 n)) e = stripZeros (withPlaces places n) := by
  have hlow : 10 ^ places ≤ n := (Nat.pow_le_pow_right (by norm_num) (by omega)).trans h.low
  have hrest : n % 10 ^ places < 10 ^ places := Nat.mod_lt _ (by positivity)
  have hsplit := toDigits_eq_append hlow
  have hwhole : (Nat.toDigits 10 (n / 10 ^ places)).length = e.toNat + 1 := by
    have hlen := congrArg List.length hsplit
    rw [h.length hp, List.length_append, length_padded hrest] at hlen
    omega
  have hstrip := stripZeros_withPlaces false places n
  refine Eq.trans ?_ hstrip.symm
  rw [positional, if_neg (Int.not_lt.mpr he), hsplit]
  dsimp only
  by_cases hfraction : dropTrailingZeros (padded places (n % 10 ^ places)) = []
  · obtain ⟨k, hk⟩ := exists_dropTrailingZeros (padded places (n % 10 ^ places))
    rw [hfraction, List.nil_append] at hk
    have hle : (dropTrailingZeros (Nat.toDigits 10 (n / 10 ^ places))).length ≤ e.toNat + 1 := by
      rw [← hwhole]
      exact length_dropTrailingZeros_le _
    rw [hfraction, hk, dropTrailingZeros_append_replicate, if_pos hle]
    exact (rightpad_dropTrailingZeros hwhole).trans (List.append_nil _).symm
  · have hlong : ¬(Nat.toDigits 10 (n / 10 ^ places) ++
        dropTrailingZeros (padded places (n % 10 ^ places))).length ≤ e.toNat + 1 := by
      have hpos := List.length_pos_iff.mpr hfraction
      rw [List.length_append, hwhole]
      omega
    rw [dropTrailingZeros_append hfraction, point_of_ne_nil hfraction, if_neg hlong,
      ← hwhole, List.take_left, List.drop_left]
    rfl

/-! ## Values -/

theorem minus_append (s : Bool) (magnitude : List Char) :
    minus s ++ magnitude = if s then '-' :: magnitude else magnitude := by
  cases s <;> rfl

theorem stripZeros_minus_append (s : Bool) (places n : Nat) :
    stripZeros (minus s ++ withPlaces places n) = minus s ++ stripZeros (withPlaces places n) := by
  have hstrip := stripZeros_withPlaces false places n
  rw [stripZeros_withPlaces, List.append_assoc]
  exact congrArg (minus s ++ ·) hstrip.symm

theorem general_round (h : Significand units p n e) (hp : 0 < p) (s : Bool) :
    minus s ++ ((ofUnits units).round p).general p = (Written.ofSignificand s p n e).text := by
  rw [Decimal.general, h.leading, h.digits, Written.ofSignificand]
  by_cases hstyle : IsScientific p e
  · rw [if_pos hstyle, if_pos (show e < -4 ∨ e ≥ p from hstyle), scientific_digits h hp,
      Written.text_ofDigits, stripZeros_minus_append, List.append_assoc, Option.elim_some]
  · have hlt : e < p := by
      rw [IsScientific] at hstyle
      omega
    have hplaces : ((p - 1 - e).toNat : Int) = p - 1 - e := by omega
    have hpositional : positional (dropTrailingZeros (Nat.toDigits 10 n)) e =
        stripZeros (withPlaces (p - 1 - e).toNat n) := by
      rcases lt_or_ge e 0 with he | he
      · exact positional_of_neg h hplaces hp he
      · exact positional_of_nonneg h hplaces hp he
    rw [if_neg hstyle, if_neg (show ¬(e < -4 ∨ e ≥ p) from hstyle), hpositional,
      Written.text_ofDigits, stripZeros_minus_append, Option.elim_none, List.append_nil]

namespace Binary64

/-- The fixed-point text of a number is in fixed-point style. -/
theorem fixedText?_places (s : Bool) (hr : Representable units) (hu : units < overflowUnits) :
    fixedText? Triple.places s units = some (finite s units hr hu).fixed := by
  have hne : Triple.places ≠ 0 := by decide
  rw [fixedText?, if_pos (by decide), fixed, withPlaces, if_neg hne, padded, if_neg hne,
    minus_append]

/-- Where the two styles give a text, it is that of the value rounded once. -/
theorem toList_general {v : Binary64} {text : List Char}
    (h : v.generalText? precision = some text) : (v.general precision).toList = text := by
  cases v with
  | nan =>
    cases h
    rfl
  | inf s =>
    have hinf : (if s then "-inf" else "inf").toList = minus s ++ "inf".toList := by
      cases s <;> decide
    cases h
    exact hinf
  | finite s units hr hu =>
    rw [general, String.toList_ofList, ← minus_append]
    rcases Nat.eq_zero_or_pos units with rfl | hpos
    · cases h
      rfl
    · have hp : 0 < max precision 1 := by omega
      obtain ⟨n, e, hdigits⟩ := exists_significand hpos hu hp
      rw [generalText?_finite hpos hdigits] at h
      split at h
      · cases h
      · rw [if_neg hpos.ne', general_round hdigits hp]
        exact Option.some.inj h

/-- There is a text if three more digits than are asked for would be within the limit: a number
without an exponent has three zeros after its point at most. -/
theorem generalText?_eq_general (h : precision + 3 ≤ maxPrecision) (v : Binary64) :
    v.generalText? precision = some (v.general precision).toList := by
  cases htext : v.generalText? precision with
  | some text => rw [toList_general htext]
  | none =>
    exfalso
    cases v with
    | nan => cases htext
    | inf s => cases htext
    | finite s units hr hu =>
      rcases Nat.eq_zero_or_pos units with rfl | hpos
      · cases htext
      · obtain ⟨n, e, hdigits⟩ := exists_significand hpos hu (p := max precision 1) (by omega)
        rw [generalText?_finite hpos hdigits] at htext
        split at htext
        · rename_i hexceeds
          rw [maxPrecision] at h
          rw [ExceedsLimit, IsScientific, maxPrecision] at hexceeds
          omega
        · cases htext

end Binary64

end CellMachine
