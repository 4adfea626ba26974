import CellMachine.Proofs.Decimal.Encoding
import CellMachine.Proofs.Machine.Stack
import Mathlib.Data.Int.ModEq

/-!
# CellMachine.Proofs.Machine.Integers

Arithmetic and shifts of words, against the integers.

* `Word.shiftCount_eq`         — the count of a shift is a word modulo 64.
* `Word.toInt_shiftLeft`, `Word.toInt_shiftRight` — shifts by any word.
* `Divided`                    — a quotient modulo `2 ^ 64`, and the remainder.
* `Machine.Computes`           — an instruction leaves an integer in a register and changes no other.
* `Machine.integer_operations` — what the operations compute of two registers.
-/

namespace CellMachine

/-! ## Integers -/

theorem truncate_div (a b : Int) : truncate ((a : ℚ) / b) = a.tdiv b := by
  have hnat : ∀ n k : Nat, truncate ((n : ℚ) / k) = (n : Int).tdiv k := truncate_natCast_div
  obtain ⟨n, rfl | rfl⟩ := a.eq_nat_or_neg
  all_goals
    obtain ⟨k, rfl | rfl⟩ := b.eq_nat_or_neg
    all_goals
      simp only [Int.cast_neg, Int.cast_natCast, neg_div, div_neg, truncate_neg, hnat, Int.neg_tdiv,
        Int.tdiv_neg]

/-- `q` is `a / b`, truncated, modulo `2 ^ 64`, and `r` is the remainder of this division. Only the
quotient of the smallest word by `-1` is out of range. -/
structure Divided (a b q r : Int) : Prop where
  quotient : q = (truncate ((a : ℚ) / b)).bmod (2 ^ 64)
  remainder : r = a - b * truncate ((a : ℚ) / b)
  lt : |r| < |b|
  sign : r = 0 ∨ r.sign = a.sign
  sum : q * b + r ≡ a [ZMOD 2 ^ 64]

theorem bmod_modEq (z : Int) : z.bmod (2 ^ 64) ≡ z [ZMOD 2 ^ 64] := Int.bmod_emod

/-! ## Words -/

namespace Word

theorem divided (a : Word) {b : Word} (hb : b.toInt ≠ 0) :
    Divided a.toInt b.toInt (a / b).toInt (a % b).toInt := by
  have hremainder : (a % b).toInt = a.toInt - b.toInt * a.toInt.tdiv b.toInt := by
    rw [Int64.toInt_mod, Int.tmod_def]
  constructor
  · rw [Int64.toInt_div, truncate_div]
  · rw [hremainder, truncate_div]
  · rw [Int64.toInt_mod, Int.abs_eq_natAbs, Int.abs_eq_natAbs, Int.natAbs_tmod]
    exact_mod_cast Nat.mod_lt _ (Int.natAbs_pos.mpr hb)
  · rw [Int64.toInt_mod, ← Int.sign_eq_zero_iff_zero, Int.sign_tmod]
    split
    · exact .inl rfl
    · exact .inr rfl
  · calc (a / b).toInt * b.toInt + (a % b).toInt
        ≡ a.toInt.tdiv b.toInt * b.toInt + (a % b).toInt [ZMOD 2 ^ 64] := by
          rw [Int64.toInt_div]
          exact ((bmod_modEq _).mul_right _).add_right _
      _ = a.toInt := by
          rw [Int64.toInt_mod, Int.tdiv_mul_add_tmod]

/-- The count of a shift is a word modulo 64. -/
theorem shiftCount_eq (b : Word) : b.shiftCount = (b.toInt % 64).toNat := by
  have hmask : b.shiftCount = b.toBitVec.toNat % 64 := by
    rw [shiftCount, UInt32.toNat_and, UInt64.toNat_toUInt32]
    exact (Nat.and_two_pow_sub_one_eq_mod _ 6).trans (Nat.mod_mod_of_dvd _ (by decide))
  rw [hmask, ← Int64.toInt_toBitVec, BitVec.toInt_eq_toNat_cond]
  split
  · omega
  · omega

/-- The shifts of bit vectors divide once more by 64, which leaves the count as it is. -/
theorem toNat_smod_shiftCount (b : Word) :
    ((Int64.ofNat b.shiftCount).toBitVec.smod 64).toNat = (b.toInt % 64).toNat := by
  have hlt : b.shiftCount < 64 := by
    rw [shiftCount_eq]
    omega
  have hcount : (Int64.ofNat b.shiftCount).toInt = b.shiftCount :=
    Int64.toInt_ofNat_of_lt (hlt.trans (by decide))
  have hmod : ((Int64.ofNat b.shiftCount).toBitVec.smod 64).toInt = b.shiftCount := by
    rw [BitVec.toInt_smod, Int64.toInt_toBitVec, hcount]
    exact Int.fmod_eq_of_lt (Int.natCast_nonneg _) (Int.ofNat_lt.mpr hlt)
  rw [BitVec.toInt_eq_toNat_cond] at hmod
  rw [← shiftCount_eq]
  split at hmod
  · omega
  · omega

theorem toInt_shiftLeft (a b : Word) :
    (a <<< Int64.ofNat b.shiftCount).toInt =
      (a.toInt * 2 ^ (b.toInt % 64).toNat).bmod (2 ^ 64) := by
  generalize hk : (b.toInt % 64).toNat = k
  have hbits : (a <<< Int64.ofNat b.shiftCount).toBitVec = a.toBitVec <<< k := by
    rw [Int64.toBitVec_shiftLeft, BitVec.shiftLeft_eq', toNat_smod_shiftCount, hk]
  rw [← Int64.toInt_toBitVec, hbits, BitVec.toInt_shiftLeft, Nat.shiftLeft_eq,
    ← Int64.toInt_toBitVec, BitVec.toInt_eq_toNat_bmod, Int.bmod_mul_bmod]
  push_cast
  rfl

theorem toInt_shiftRight (a b : Word) :
    (a >>> Int64.ofNat b.shiftCount).toInt = ⌊(a.toInt : ℚ) / 2 ^ (b.toInt % 64).toNat⌋ := by
  generalize hk : (b.toInt % 64).toNat = k
  have hbits : (a >>> Int64.ofNat b.shiftCount).toBitVec = a.toBitVec.sshiftRight k := by
    rw [Int64.toBitVec_shiftRight, BitVec.sshiftRight_eq', toNat_smod_shiftCount, hk]
  have hfloor := Rat.floor_intCast_div_natCast a.toInt (2 ^ k)
  rw [Nat.cast_pow, Nat.cast_ofNat] at hfloor
  rw [← Int64.toInt_toBitVec, hbits, BitVec.toInt_sshiftRight, Int.shiftRight_eq_div_pow, hfloor]
  rfl

end Word

namespace Machine

variable {m : Machine} {d s : Fin 16} {w : Word}

/-! ## Instructions -/

/-- `i` leaves a word of value `z` in register `j` and changes no other register and no flag: by
itself, and as a step. -/
def Computes (m : Machine) (i : Instruction) (j : Fin 16) (z : Int) : Prop :=
  ∃ w : Word, w.toInt = z ∧
    (∃ m', Exec.execute i m = (m', .ok ()) ∧ m'.regs = m.regs.put j w) ∧
    (m.status = .running → m.TakesTrace → m.Holds i →
      ∃ m', m.step = (m', .ok (some i)) ∧ m'.regs = m.regs.put j w)

theorem computes_of_act {i : Instruction}
    (h : ∀ n : Machine, n.regs = m.regs → Exec.act i n = (n.apply (.register d w), .ok ())) :
    m.Computes i d w.toInt := by
  refine ⟨w, rfl, ⟨_, execute_of_act (h m rfl), rfl⟩, fun hr hout hholds => ?_⟩
  obtain ⟨inst, dest, src, hfetch⟩ := hholds.fetch
  obtain ⟨out, hstep⟩ := step_of_execute hr hfetch (execute_of_act (h _ rfl)) hout
  exact ⟨_, hstep, rfl⟩

theorem act_arith_of_words {op : Arith} (ht : m.regs.tagA ≠ some .float)
    (hb : op.divides = true → m.regs.word s ≠ 0) :
    Exec.act (.arith op (Int64.ofNat d) (Int64.ofNat s)) m =
      (m.apply (.register d (op.onWords (m.regs.word d) (m.regs.word s))), .ok ()) := by
  have hzero : ¬(op.divides && m.regs.word s == 0) = true := by
    rw [Bool.and_eq_true, beq_iff_eq]
    exact fun h => hb h.1 h.2
  show Exec.arithmetic op _ _ m = _
  unfold Exec.arithmetic
  rw [Exec.machine_bind, if_neg ht]
  refine (Exec.read_bind_of_ok (m.register_ofNat s) _).trans ?_
  rw [if_neg hzero]
  exact (Exec.read_bind_of_ok (m.register_ofNat d) _).trans (m.setRegister_ofNat d _)

theorem act_bitwise (m : Machine) (op : Bitwise) (d s : Fin 16) :
    Exec.act (.bitwise op (Int64.ofNat d) (Int64.ofNat s)) m =
      (m.apply (.register d (op.apply (m.regs.word d) (m.regs.word s))), .ok ()) :=
  (Exec.read_bind_of_ok (m.register_ofNat s) _).trans
    ((Exec.read_bind_of_ok (m.register_ofNat d) _).trans (m.setRegister_ofNat d _))

/-- Arithmetic and shifts of two registers, which may be one, and may hold any words. Without the tag
of a decimal, sums, differences, products and quotients are those of the integers modulo `2 ^ 64`,
and quotients are truncated. Shifts multiply and divide by a power of two, with a count modulo 64,
and round down. -/
theorem integer_operations {dest src : Word} (hd : dest.toInt = (d.val : Int))
    (hs : src.toInt = (s.val : Int)) :
    let a := (m.regs.word d).toInt
    let b := (m.regs.word s).toInt
    (m.regs.word Registers.r0a ≠ 2 →
      m.Computes (.arith .add dest src) d ((a + b).bmod (2 ^ 64)) ∧
      m.Computes (.arith .sub dest src) d ((a - b).bmod (2 ^ 64)) ∧
      m.Computes (.arith .mul dest src) d ((a * b).bmod (2 ^ 64)) ∧
      (b ≠ 0 → ∃ q r, m.Computes (.arith .div dest src) d q ∧
        m.Computes (.arith .mod dest src) d r ∧ Divided a b q r)) ∧
    m.Computes (.bitwise .shl dest src) d ((a * 2 ^ (b % 64).toNat).bmod (2 ^ 64)) ∧
    m.Computes (.bitwise .shr dest src) d ⌊(a : ℚ) / 2 ^ (b % 64).toNat⌋ := by
  intro a b
  obtain rfl := Word.eq_ofNat_of_toInt_eq hd
  obtain rfl := Word.eq_ofNat_of_toInt_eq hs
  have harith : m.regs.word Registers.r0a ≠ 2 → ∀ op : Arith, (op.divides = true → b ≠ 0) →
      m.Computes (.arith op (Int64.ofNat d) (Int64.ofNat s)) d
        (op.onWords (m.regs.word d) (m.regs.word s)).toInt := by
    intro ht op hb
    refine computes_of_act fun n hn => ?_
    rw [← hn]
    refine act_arith_of_words (fun h => ?_) fun hop hzero => ?_
    · rw [hn] at h
      exact ht (Registers.tagA_eq_float_iff.mp h)
    · rw [hn] at hzero
      exact hb hop (congrArg Int64.toInt hzero)
  have hbitwise : ∀ op : Bitwise, m.Computes (.bitwise op (Int64.ofNat d) (Int64.ofNat s)) d
      (op.apply (m.regs.word d) (m.regs.word s)).toInt := by
    intro op
    refine computes_of_act fun n hn => ?_
    rw [← hn]
    exact n.act_bitwise op d s
  refine ⟨fun ht => ⟨?_, ?_, ?_, fun hb => ?_⟩, ?_, ?_⟩
  · rw [← Int64.toInt_add]
    exact harith ht .add nofun
  · rw [← Int64.toInt_sub]
    exact harith ht .sub nofun
  · rw [← Int64.toInt_mul]
    exact harith ht .mul nofun
  · exact ⟨_, _, harith ht .div fun _ => hb, harith ht .mod fun _ => hb, Word.divided _ hb⟩
  · rw [← Word.toInt_shiftLeft]
    exact hbitwise .shl
  · rw [← Word.toInt_shiftRight]
    exact hbitwise .shr

/-- The smallest word, divided by and shifted by the word `-1`. -/
theorem integer_operations_limit :
    let m : Machine := { new ⟨#[14, 1, 9]⟩ with
      regs := { r := #v[0, Int64.minValue, 0, 0, 0, 0, 0, 0, 0, -1, 0, 0, 0, 0, 0, 0] } }
    (∃ m', m.step = (m', .ok (some (.arith .div 1 9))) ∧
        m'.regs = m.regs.put 1 Int64.minValue) ∧
      ∃ m', Exec.execute (.bitwise .shr 1 9) m = (m', .ok ()) ∧ m'.regs = m.regs.put 1 (-1) := by
  intro m
  have hd : (1 : Word).toInt = ((1 : Fin 16).val : Int) := rfl
  have hs : (9 : Word).toInt = ((9 : Fin 16).val : Int) := rfl
  have hholds : m.Holds (.arith .div 1 9) := ⟨0, by decide, List.prefix_rfl⟩
  have hout : m.TakesTrace := fun hdebug => absurd hdebug Bool.false_ne_true
  obtain ⟨harith, -, w, hw, hshift, -⟩ := integer_operations (m := m) hd hs
  obtain ⟨-, -, -, hdiv⟩ := harith (by decide)
  obtain ⟨q, r, ⟨v, hv, -, hstep⟩, -, hdivided⟩ := hdiv (by decide)
  have ha : (m.regs.word 1).toInt = -2 ^ 63 := by decide
  have hb : (m.regs.word 9).toInt = -1 := by decide
  rw [ha, hb] at hdivided hw
  have hv : v = Int64.minValue := by
    have hquotient := hdivided.quotient
    rw [truncate_div] at hquotient
    exact Int64.toInt_inj.mp (hv.trans (hquotient.trans (by decide)))
  have hw : w = -1 := by
    refine Int64.toInt_inj.mp (hw.trans ?_)
    rw [show ((-1 : Int) % 64).toNat = 63 from rfl, show (-1 : Word).toInt = -1 from rfl]
    norm_num
  exact ⟨hv ▸ hstep rfl hout hholds, hw ▸ hshift⟩

end Machine

end CellMachine
