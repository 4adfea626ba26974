import CellMachine.Binary64.Basic

/-!
# CellMachine.Binary64.Arith

Arithmetic on binary64 numbers. Each operation is its exact result, rounded once; the remainder is
exact. Infinities and NaN follow IEEE 754.

* `add`, `sub`, `mul`, `div`, `rem` — the operations.
* `compare` — the numeric order; NaN is unordered, and the two zeros are equal.
* `pow`     — a power with a natural exponent, by repeated squaring.
-/

namespace CellMachine.Binary64

def signed (negative : Bool) (n : Nat) : Int := if negative then -(n : Int) else n

def neg : Binary64 → Binary64
  | .nan => .nan
  | .inf s => .inf (!s)
  | .finite s n h h' => .finite (!s) n h h'

/-- The sum. A zero sum is negative only if both summands are. -/
def add : Binary64 → Binary64 → Binary64
  | .nan, _ | _, .nan => .nan
  | .inf s, .inf t => if s = t then .inf s else .nan
  | .inf s, .finite .. => .inf s
  | .finite .., .inf t => .inf t
  | .finite s m _ _, .finite t n _ _ =>
    let sum := signed s m + signed t n
    if sum = 0 then ofRatio (s && t) 0 1 else ofRatio (sum < 0) sum.natAbs 1

def sub (x y : Binary64) : Binary64 := x.add y.neg

def mul : Binary64 → Binary64 → Binary64
  | .nan, _ | _, .nan => .nan
  | .inf s, .inf t => .inf (s != t)
  | .inf s, .finite t n _ _ | .finite t n _ _, .inf s => if n = 0 then .nan else .inf (s != t)
  | .finite s m _ _, .finite t n _ _ => ofRatio (s != t) (m * n) unitsPerOne

def div : Binary64 → Binary64 → Binary64
  | .nan, _ | _, .nan => .nan
  | .inf _, .inf _ => .nan
  | .inf s, .finite t _ _ _ => .inf (s != t)
  | .finite s _ _ _, .inf t => ofRatio (s != t) 0 1
  | .finite s m _ _, .finite t n _ _ =>
    if n = 0 then (if m = 0 then .nan else .inf (s != t)) else ofRatio (s != t) (m * unitsPerOne) n

/-- The exact remainder of the division truncated toward zero, with the sign of the dividend. -/
def rem : Binary64 → Binary64 → Binary64
  | .nan, _ | _, .nan => .nan
  | .inf _, _ => .nan
  | x@(.finite ..), .inf _ => x
  | .finite s m _ _, .finite _ n _ _ => if n = 0 then .nan else ofRatio s (m % n) 1

def compare : Binary64 → Binary64 → Option Ordering
  | .nan, _ | _, .nan => none
  | .inf s, .inf t => some (if s = t then .eq else if s then .lt else .gt)
  | .inf s, .finite .. => some (if s then .lt else .gt)
  | .finite .., .inf t => some (if t then .gt else .lt)
  | .finite s m _ _, .finite t n _ _ => some (Ord.compare (signed s m) (signed t n))

/-- `r * a ^ b` for an exponent `b` of at most `bits` binary digits, the low digit first. -/
def powBits : (bits : Nat) → (r a : Binary64) → (b : Nat) → Binary64
  | 0, r, _, _ => r
  | bits + 1, r, a, b =>
    let r := if b % 2 = 1 then r.mul a else r
    if b / 2 = 0 then r else powBits bits r (a.mul a) (b / 2)

/-- `a ^ b` by repeated squaring, each product rounded. -/
def pow (a : Binary64) (b : Nat) : Binary64 := powBits (b.log2 + 1) (ofNat 1) a b

end CellMachine.Binary64
