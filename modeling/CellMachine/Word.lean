/-!
# CellMachine.Word

The machine word: a signed 64-bit integer with wrapping arithmetic.

* `Word.place?`     — a word read as a position in a row of `n` places.
* `Word.ofInt?`     — an integer as a word, if it is in range.
* `Word.shiftCount` — a word read as the count of a shift.
-/

namespace CellMachine

/-- The content of one memory cell or one register. -/
abbrev Word := Int64

namespace Word

/-- The position that `w` names in a row of `n` places, if it names one. -/
def place? (w : Word) (n : Nat) : Option (Fin n) :=
  if h : 0 ≤ w.toInt ∧ w.toInt.toNat < n then some ⟨w.toInt.toNat, h.2⟩ else none

theorem place?_eq_some_iff {w : Word} {n : Nat} {i : Fin n} :
    w.place? n = some i ↔ w.toInt = (i.val : Int) := by
  unfold place?
  split
  · rename_i h
    simp only [Option.some.injEq, Fin.ext_iff]
    omega
  · rename_i h
    have := i.isLt
    simp only [reduceCtorEq, false_iff]
    omega

theorem eq_ofNat_of_toInt_eq {w : Word} {n : Nat} (h : w.toInt = (n : Int)) : w = Int64.ofNat n := by
  rw [← Int64.ofInt_eq_ofNat, ← h, Int64.ofInt_toInt]

theorem place?_eq_none_iff {w : Word} {n : Nat} :
    w.place? n = none ↔ w.toInt < 0 ∨ (n : Int) ≤ w.toInt := by
  unfold place?
  split
  · simp only [reduceCtorEq, false_iff]
    omega
  · simp only [true_iff]
    omega

/-- The integer `z` as a word, if it lies in the word's range. -/
def ofInt? (z : Int) : Option Word :=
  if Int64.minValue.toInt ≤ z ∧ z ≤ Int64.maxValue.toInt then some (Int64.ofInt z) else none

theorem toInt_of_ofInt? {z : Int} {w : Word} (h : ofInt? z = some w) : w.toInt = z := by
  unfold ofInt? at h
  split at h
  · rename_i hz
    simp only [Int64.toInt_minValue, Int64.toInt_maxValue] at hz
    cases h
    exact Int64.toInt_ofInt_of_le hz.1 (by omega)
  · cases h

theorem ofInt?_toInt (w : Word) : ofInt? w.toInt = some w := by
  unfold ofInt?
  rw [if_pos ⟨w.minValue_le_toInt, w.toInt_le⟩, Int64.ofInt_toInt]

def ofBool (b : Bool) : Word := if b then 1 else 0

/-- The count of a shift by `w`: its 32 low bits, of which six count. -/
def shiftCount (w : Word) : Nat := (w.toUInt64.toUInt32 &&& 63).toNat

end Word

end CellMachine
