import CellMachine.Rounding

/-!
# CellMachine.Binary64.Basic

IEEE 754 binary64 numbers as exact quantities.

A finite number is a sign and a multiple of the least positive number, `2 ^ -1074`, called the
unit. The multiples that occur have at most fifty-three significant bits.

* `Binary64.ofRatio` — the number nearest to a quotient of units, ties to even.
* `Binary64.ofBits`, `Binary64.toBits` — the interchange encoding; there is one NaN.
-/

namespace CellMachine

/-- The weight of the bit above the fifty-two bits of a fraction. -/
def hiddenBit : Nat := 0x10000000000000

/-- Numbers of units with at most fifty-three significant bits. -/
def Representable (n : Nat) : Prop := ∃ m e, m ≤ 2 * hiddenBit ∧ n = m <<< e

/-- The least number of units beyond every finite number. -/
def overflowUnits : Nat := 1 <<< 2098

/-- A binary64 number. The magnitude of a finite one is `units * 2 ^ -1074`. -/
inductive Binary64 where
  | nan
  | inf (negative : Bool)
  | finite (negative : Bool) (units : Nat) (representable : Representable units)
      (inRange : units < overflowUnits)
  deriving DecidableEq

namespace Binary64

def unitsPerOne : Nat := 1 <<< 1074

/-- `num / den` to the nearest multiple of the power of two that leaves fifty-three bits. -/
def roundUnits (num den : Nat) : Nat :=
  let k := (num / den).log2 - 52
  halfEven num (den <<< k) <<< k

theorem representable_roundUnits (num den : Nat) : Representable (roundUnits num den) := by
  refine ⟨_, _, ?_, rfl⟩
  refine Nat.le_trans (halfEven_le_succ_div _ _) ?_
  rw [Nat.shiftLeft_eq, ← Nat.div_div_eq_div_mul]
  have h : num / den < 2 ^ (53 + ((num / den).log2 - 52)) :=
    Nat.lt_of_lt_of_le Nat.lt_log2_self (Nat.pow_le_pow_right (by decide) (by omega))
  rw [Nat.pow_add] at h
  exact Nat.div_lt_of_lt_mul (by rwa [Nat.mul_comm] at h)

/-- The number nearest to `num / den` units, ties to even; infinite beyond the largest one. -/
def ofRatio (negative : Bool) (num den : Nat) : Binary64 :=
  if h : roundUnits num den < overflowUnits then
    .finite negative (roundUnits num den) (representable_roundUnits num den) h
  else .inf negative

def ofInt (z : Int) : Binary64 := ofRatio (z < 0) (z.natAbs * unitsPerOne) 1

def ofNat (n : Nat) : Binary64 := ofRatio false (n * unitsPerOne) 1

def zero : Binary64 := ofNat 0

def isFinite : Binary64 → Bool
  | .finite .. => true
  | _ => false

def isZero : Binary64 → Bool
  | .finite _ units _ _ => units == 0
  | _ => false

/-! ## Interchange encoding -/

def signBit (negative : Bool) : Nat := if negative then 0x8000000000000000 else 0

/-- The units encoded by a biased exponent and a fraction. -/
def fieldUnits (exponent fraction : Nat) : Nat :=
  if exponent = 0 then fraction else (hiddenBit + fraction) <<< (exponent - 1)

theorem representable_fieldUnits {e f : Nat} (hf : f < hiddenBit) :
    Representable (fieldUnits e f) := by
  unfold fieldUnits
  split
  · exact ⟨f, 0, by omega, rfl⟩
  · exact ⟨hiddenBit + f, e - 1, by omega, rfl⟩

theorem fieldUnits_lt_shiftLeft {e f k : Nat} (he : e ≤ k + 1) (hf : f < hiddenBit) :
    fieldUnits e f < (2 * hiddenBit) <<< k := by
  have hle : 2 ^ (e - 1) ≤ 2 ^ k := Nat.pow_le_pow_right (by decide) (by omega)
  have hpos : 0 < 2 ^ k := Nat.pow_pos (by decide)
  unfold fieldUnits
  simp only [Nat.shiftLeft_eq]
  split
  · exact Nat.lt_of_lt_of_le (by omega) (Nat.le_mul_of_pos_right _ hpos)
  · exact Nat.lt_of_le_of_lt (Nat.mul_le_mul_left _ hle)
      (Nat.mul_lt_mul_of_pos_right (by omega) hpos)

theorem fieldUnits_lt {e f : Nat} (he : e < 2047) (hf : f < hiddenBit) :
    fieldUnits e f < overflowUnits := by
  have h := fieldUnits_lt_shiftLeft (k := 2045) (Nat.le_of_lt_succ he) hf
  rwa [show (2 * hiddenBit) <<< 2045 = overflowUnits from rfl] at h

def ofBits (bits : UInt64) : Binary64 :=
  let negative := bits.toNat ≥ signBit true
  let exponent := bits.toNat / hiddenBit % 2048
  let fraction := bits.toNat % hiddenBit
  if h : exponent < 2047 then
    have hf : fraction < hiddenBit := Nat.mod_lt _ (by decide)
    .finite negative (fieldUnits exponent fraction) (representable_fieldUnits hf)
      (fieldUnits_lt h hf)
  else if fraction = 0 then .inf negative
  else .nan

/-- The magnitude bits of a number of units: below `2 ^ 53` the exponent field counts on from the
fraction, so the bits are the units themselves. -/
def unitBits (units : Nat) : Nat :=
  let k := units.log2 - 52
  units >>> k + k * hiddenBit

def toBits : Binary64 → UInt64
  | .nan => 0x7FF8000000000000
  | .inf negative => UInt64.ofNat (signBit negative + 0x7FF0000000000000)
  | .finite negative units _ _ => UInt64.ofNat (signBit negative + unitBits units)

end Binary64

end CellMachine
