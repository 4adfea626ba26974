import CellMachine.Proofs.Decimal.Rebuild

/-!
# CellMachine.Proofs.Decimal.Order

Rebuilt numbers stand in the order of what their triples denote.

Different canonical triples denote numbers that are a millionth apart or more. Below `2 ^ 33` each
of them is rebuilt to less than half a millionth, so the rebuilt numbers do not meet.

* `Triple.Canonical.add_le_exact`      — the distance of different decimals.
* `Triple.Canonical.compare_toBinary64` — rebuilt numbers compare as the decimals do.
-/

namespace CellMachine.Triple.Canonical

variable {t u : Triple} {x y : ℚ}

theorem add_le_exact (ht : t.Canonical) (hu : u.Canonical) (h : t.exact < u.exact) :
    t.exact + 1 / 10 ^ 6 ≤ u.exact := by
  rw [ht.exact_eq, hu.exact_eq] at h ⊢
  rw [div_lt_div_iff_of_pos_right (by positivity)] at h
  have hle : Binary64.signed t.isNegative t.millionths + 1 ≤
      Binary64.signed u.isNegative u.millionths := by exact_mod_cast h
  rw [← add_div, div_le_div_iff_of_pos_right (by positivity)]
  exact_mod_cast hle

/-- Two errors of less than half a millionth do not close a gap of a millionth. -/
theorem toRat?_lt (ht : t.Canonical) (hu : u.Canonical) (htlt : t.ipart.toInt.natAbs < 2 ^ 33)
    (hult : u.ipart.toInt.natAbs < 2 ^ 33) (hx : t.toBinary64.toRat? = some x)
    (hy : u.toBinary64.toRat? = some y) (h : t.exact < u.exact) : x < y := by
  obtain ⟨x', hx', hxnear⟩ := ht.toBinary64_near htlt
  obtain ⟨y', hy', hynear⟩ := hu.toBinary64_near hult
  obtain rfl := Option.some.inj (hx.symm.trans hx')
  obtain rfl := Option.some.inj (hy.symm.trans hy')
  rw [abs_lt] at hxnear hynear
  have hgap := ht.add_le_exact hu h
  linarith

theorem exact_eq_exact_iff (ht : t.Canonical) (hu : u.Canonical) : t.exact = u.exact ↔ t = u :=
  ⟨ht.eq_of_exact_eq hu, fun h => h ▸ rfl⟩

theorem compare_toBinary64 (ht : t.Canonical) (hu : u.Canonical)
    (htlt : t.ipart.toInt.natAbs < 2 ^ 33) (hult : u.ipart.toInt.natAbs < 2 ^ 33) :
    t.toBinary64.compare u.toBinary64 = some (compare t.exact u.exact) := by
  obtain ⟨x, hx, -⟩ := ht.toBinary64_near htlt
  obtain ⟨y, hy, -⟩ := hu.toBinary64_near hult
  rw [Binary64.compare_of_toRat? hx hy]
  rcases lt_trichotomy t.exact u.exact with h | h | h
  · rw [compare_lt_iff_lt.mpr h, compare_lt_iff_lt.mpr (ht.toRat?_lt hu htlt hult hx hy h)]
  · obtain rfl := ht.eq_of_exact_eq hu h
    obtain rfl := Option.some.inj (hx.symm.trans hy)
    rw [compare_eq_iff_eq.mpr rfl, compare_eq_iff_eq.mpr rfl]
  · rw [compare_gt_iff_gt.mpr h, compare_gt_iff_gt.mpr (hu.toRat?_lt ht hult htlt hy hx h)]

end CellMachine.Triple.Canonical
