import CellMachine.Proofs.Machine.Cause
import CellMachine.Proofs.Result

/-!
# CellMachine.Proofs.Machine.Parts

Why the parts of instructions fail: access to registers and memory, decimals, the stack, printing.

* `NoRegister`, `NoCell`, `DigitFault` — the causes.
* `StackFits`, `Sink.Accepts`          — the machines that have no others.
-/

namespace CellMachine

def NoRegister (index : Word) (f : Fault) : Prop := ¬index.IsPlace 16 ∧ f = .register ⟨index⟩

theorem noRegister_singleton {a : Word} {f : Fault} :
    (∃ index ∈ [a], NoRegister index f) ↔ NoRegister a f := by
  simp only [List.mem_cons, List.not_mem_nil, or_false, exists_eq_left]

theorem noRegister_pair {a b : Word} {f : Fault} :
    (∃ index ∈ [a, b], NoRegister index f) ↔ NoRegister a f ∨ NoRegister b f := by
  simp only [List.mem_cons, List.not_mem_nil, or_false, exists_eq_or_imp, exists_eq_left]

def NoCell (size : Nat) (addr : Word) (f : Fault) : Prop :=
  ¬addr.IsPlace size ∧ f = .memory (.addressOutOfRange addr size)

/-! ## Registers and memory -/

theorem Registers.slot_eq_ok_iff {index : Word} {i : Fin 16} :
    slot index = .ok i ↔ index.toInt = (i.val : Int) := by
  rw [← Word.place?_eq_some_iff, slot]
  cases index.place? 16 with
  | none => exact ⟨nofun, nofun⟩
  | some j => rw [Except.ok.injEq, Option.some.injEq]

theorem Memory.index_eq_ok_iff {mem : Memory} {addr : Word} {i : Fin mem.size} :
    mem.index addr = .ok i ↔ addr.toInt = (i.val : Int) := by
  rw [← Word.place?_eq_some_iff, index]
  cases addr.place? mem.size with
  | none => exact ⟨nofun, nofun⟩
  | some j => rw [Except.ok.injEq, Option.some.injEq]

theorem failsFor_slot (index : Word) : FailsFor (Machine.slot index) (NoRegister index) := by
  unfold Machine.slot Registers.slot
  by_cases h : index.IsPlace 16
  · obtain ⟨i, hi, -⟩ := Word.exists_place? h
    rw [hi]
    exact .ok fun f hf => hf.1 h
  · rw [Word.place?_of_not_isPlace h]
    exact .error ⟨h, rfl⟩

theorem failsFor_position (m : Machine) (addr : Word) :
    FailsFor (m.position addr) (NoCell m.mem.size addr) := by
  unfold Machine.position Memory.index
  by_cases h : addr.IsPlace m.mem.size
  · obtain ⟨i, hi, -⟩ := Word.exists_place? h
    rw [hi]
    exact .ok fun f hf => hf.1 h
  · rw [Word.place?_of_not_isPlace h]
    exact .error ⟨h, rfl⟩

theorem failsFor_register (m : Machine) (index : Word) :
    FailsFor (m.register index) (NoRegister index) := by
  rw [Machine.register, Registers.get, mapError_map]
  exact (failsFor_slot index).map m.regs.word

theorem failsFor_load (m : Machine) (addr : Word) :
    FailsFor (m.load addr) (NoCell m.mem.size addr) := by
  rw [Machine.load, Memory.read, mapError_map]
  exact (failsFor_position m addr).map (m.mem.cells[·])

theorem failsFor_setRegister (m : Machine) (index w : Word) :
    FailsFor (Exec.setRegister index w m).2 (NoRegister index) :=
  .bind_perform (failsFor_slot index)

theorem failsFor_store (m : Machine) (addr w : Word) :
    FailsFor (Exec.store addr w m).2 (NoCell m.mem.size addr) :=
  .bind_perform ((failsFor_position m addr).map Fin.val)

/-! ## Decimals -/

theorem toInt_add_two {w : Word} (h : w.IsPlace 16) : (w + 2).toInt = w.toInt + 2 := by
  obtain ⟨hnonneg, hlt⟩ := h
  rw [Int64.toInt_add, show (2 : Word).toInt = 2 from rfl]
  exact Int.bmod_eq_of_le (by omega) (by omega)

theorem Registers.decimalSlot_eq_ok_iff {base : Word} {i : Fin 14} :
    decimalSlot base = .ok i ↔ base.toInt = (i.val : Int) := by
  have hlt : i.val < 16 := Nat.lt_trans i.isLt (by decide)
  rw [show (i.val : Int) = ((⟨i.val, hlt⟩ : Fin 16).val : Int) from rfl,
    ← Word.place?_eq_some_iff, decimalSlot]
  cases base.place? 16 with
  | none => exact ⟨nofun, nofun⟩
  | some j =>
    simp only
    split
    · rw [Except.ok.injEq, Option.some.injEq, Fin.ext_iff, Fin.ext_iff]
    · rename_i hj
      refine ⟨nofun, fun h => absurd i.isLt ?_⟩
      cases h
      exact hj

theorem failsFor_decimalSlot (base : Word) :
    FailsFor ((Registers.decimalSlot base).mapError .register) fun f =>
      NoRegister base f ∨ NoRegister (base + 2) f := by
  unfold Registers.decimalSlot
  by_cases h : base.IsPlace 16
  · obtain ⟨i, hi, hbase⟩ := Word.exists_place? h
    have htwo := toInt_add_two h
    have hnonneg := h.1
    rw [hi]
    simp only
    split
    · refine .ok ?_
      rintro f (hf | hf)
      · exact hf.1 h
      · exact hf.1 ⟨by omega, by omega⟩
    · refine .error (.inr ⟨?_, rfl⟩)
      rintro ⟨-, hlt⟩
      omega
  · rw [Word.place?_of_not_isPlace h]
    exact .error (.inl ⟨h, rfl⟩)

theorem failsFor_readDecimal (regs : Registers) (base : Word) :
    FailsFor ((regs.readDecimal base).mapError .register) fun f =>
      NoRegister base f ∨ NoRegister (base + 2) f := by
  rw [Registers.readDecimal, mapError_map]
  exact (failsFor_decimalSlot base).map fun i => (regs.triple i).toBinary64

theorem failsFor_sourceNumber (m : Machine) (src : Word) :
    FailsFor ((m.regs.sourceNumber src).mapError .register) fun f =>
      ∃ index ∈ m.regs.sourceRegisters src, NoRegister index f := by
  unfold Registers.sourceNumber Registers.sourceRegisters
  split
  · exact (failsFor_readDecimal m.regs src).congr fun f => noRegister_pair.symm
  · rw [mapError_map]
    refine FailsFor.congr ?_ fun f => noRegister_singleton.symm
    exact (failsFor_register m src).map fun w => Binary64.ofInt w.toInt

/-- The numbers of the instruction fetched last are its operands. -/
theorem numbers_eq (m : Machine) :
    m.numbers = do
      let x ← (m.regs.readDecimal m.dest).mapError .register
      let y ← (m.regs.sourceNumber m.src).mapError .register
      return (x, y) := by
  unfold Machine.numbers Registers.sourceNumber Machine.register
  split
  · rfl
  · rw [mapError_map]

theorem failsFor_numbers (m : Machine) :
    FailsFor m.numbers fun f =>
      ∃ index ∈ m.dest :: (m.dest + 2) :: m.regs.sourceRegisters m.src, NoRegister index f := by
  rw [numbers_eq]
  refine FailsFor.congr (FailsFor.bind_except (failsFor_readDecimal m.regs m.dest) fun x _ =>
    FailsFor.bind_except_never (failsFor_sourceNumber m m.src) fun y _ => .ok fun _ => id)
    fun f => ?_
  simp only [List.mem_cons, exists_eq_or_imp, or_assoc]

theorem numbers_eq_ok {m : Machine} {x y : Binary64} (h : m.numbers = .ok (x, y)) :
    m.regs.readDecimal m.dest = .ok x ∧ m.regs.sourceNumber m.src = .ok y := by
  rw [numbers_eq] at h
  obtain ⟨x', hx, h⟩ := bind_eq_ok_iff.mp h
  obtain ⟨y', hy, h⟩ := bind_eq_ok_iff.mp h
  cases h
  exact ⟨mapError_eq_ok_iff.mp hx, mapError_eq_ok_iff.mp hy⟩

theorem failsFor_ofBinary64 (x : Binary64) :
    FailsFor ((Triple.ofBinary64 x).mapError .decimal) fun f =>
      ∃ e, Unencodable x e ∧ f = .decimal e := by
  cases x with
  | nan => exact .error ⟨_, .notFinite rfl, rfl⟩
  | inf negative => exact .error ⟨_, .notFinite rfl, rfl⟩
  | finite negative units hr hu =>
    unfold Triple.ofBinary64 Triple.ofMillionths?
    simp only
    cases hw : Word.ofInt? (Binary64.signed negative
        (halfEven (units * tenPow Triple.places) Binary64.unitsPerOne / tenPow Triple.places)) with
    | none => exact .error ⟨_, .outOfRange hw, rfl⟩
    | some w =>
      refine .ok ?_
      rintro f ⟨e, he, rfl⟩
      cases he with
      | notFinite h => cases h
      | outOfRange h =>
        rw [show (1000000 : Nat) = tenPow Triple.places from rfl, hw] at h
        cases h

/-! ## The stack -/

/-- The stack pointer is on a cell or behind the last one, and addresses are words. -/
structure StackFits (m : Machine) : Prop where
  nonneg : 0 ≤ m.sp.toInt
  le : m.sp.toInt ≤ m.mem.size
  size : Word.Covers m.mem.size

theorem failsFor_push {m : Machine} (h : StackFits m) (w : Word) :
    FailsFor (Exec.push w m).2 fun f => m.sp = 0 ∧ f = .stackOverflow 0 := by
  have hnonneg := h.nonneg
  have hle := h.le
  unfold Exec.push
  rw [Exec.machine_bind]
  split
  · rename_i hsp
    rw [Int64.le_iff_toInt_le, Int64.toInt_zero] at hsp
    have hzero : m.sp = 0 := Int64.toInt_inj.mp (by rw [Int64.toInt_zero]; omega)
    rw [hzero]
    exact .error ⟨rfl, rfl⟩
  · rename_i hsp
    rw [Int64.le_iff_toInt_le, Int64.toInt_zero] at hsp
    have hplace : (m.sp - 1).IsPlace m.mem.size := by
      rw [Word.IsPlace, Word.toInt_sub_one (by omega)]
      omega
    refine FailsFor.congr (.bind_perform (failsFor_store m _ w)) fun f => ⟨?_, ?_⟩
    · intro hf
      exact absurd hplace hf.1
    · rintro ⟨hzero, -⟩
      rw [hzero, Int64.toInt_zero] at hsp
      omega

theorem pop_of_eq {m : Machine} (h : m.sp.toInt = m.mem.size) :
    Exec.pop m = (m, .error (.stackUnderflow m.sp)) := by
  unfold Exec.pop
  rw [Exec.machine_bind]
  exact congrFun (if_pos (.inr (by omega))) m

theorem pop_of_lt {m : Machine} (hnonneg : 0 ≤ m.sp.toInt) (hlt : m.sp.toInt < m.mem.size) :
    ∃ w, m.mem.cells[m.sp.toInt.toNat]? = some w ∧
      Exec.pop m = (m.apply (.stack (m.sp + 1)), .ok w) := by
  obtain ⟨i, hi, hsp⟩ := Word.exists_place? ⟨hnonneg, hlt⟩
  have hrange : ¬(m.sp < 0 ∨ m.mem.size ≤ m.sp.toInt.toNat) := by
    rw [Int64.lt_iff_toInt_lt, Int64.toInt_zero]
    omega
  refine ⟨m.mem.cells[i], ?_, ?_⟩
  · rw [show m.sp.toInt.toNat = i.val by omega]
    exact Array.getElem?_eq_getElem i.isLt
  · have hload : m.load m.sp = .ok m.mem.cells[i] := by
      rw [Machine.load, Memory.read, Memory.index, hi]
      rfl
    unfold Exec.pop
    rw [Exec.machine_bind, if_neg hrange]
    exact Exec.read_bind_of_ok hload _

theorem failsFor_pop {m : Machine} (h : StackFits m) :
    FailsFor (Exec.pop m).2 fun f =>
      m.sp.toInt = m.mem.size ∧ f = .stackUnderflow m.sp := by
  rcases Int.lt_or_eq_of_le h.le with hlt | heq
  · obtain ⟨w, -, hpop⟩ := pop_of_lt h.nonneg hlt
    rw [hpop]
    exact .ok fun f hf => absurd hf.1 (Int.ne_of_lt hlt)
  · rw [pop_of_eq heq]
    exact .error ⟨heq, rfl⟩

theorem StackFits.succ {m : Machine} (h : StackFits m) (hlt : m.sp.toInt < m.mem.size) :
    (m.sp + 1).toInt = m.sp.toInt + 1 := Word.toInt_add_one h.size hlt

/-! ## Printing -/

/-- A text that is taken comes behind the text so far. -/
theorem Sink.text_write_of_taken {out : Sink} {s : String} (h : (out.write s).2 = none) :
    (out.write s).1.text = out.text ++ s := by
  unfold Sink.write at h ⊢
  split at h
  · rename_i hempty
    rw [if_pos hempty, String.isEmpty_iff.mp hempty, String.append_empty]
  · rename_i hempty
    rw [if_neg hempty]
    split at h
    · rfl
    · cases h

theorem print_cases (m : Machine) (text : String) :
    (∃ out : Sink, out.text = m.out.text ++ text ∧
        Exec.print text m = (m.apply (.output out), .ok ())) ∨
      ∃ m' reason, Exec.print text m = (m', .error (.output reason)) := by
  unfold Exec.print
  cases hwrite : (m.out.write text).2 with
  | none =>
    refine .inl ⟨_, Sink.text_write_of_taken hwrite, ?_⟩
    simp only [hwrite]
    rfl
  | some reason =>
    refine .inr ⟨m.apply (.output (m.out.write text).1), reason, ?_⟩
    simp only [hwrite]
    rfl

structure Sink.Accepts (out : Sink) : Prop where
  answers : ∀ a ∈ out.answers, a = none
  refusal : out.refusal = none

theorem Sink.Accepts.write {out : Sink} (h : out.Accepts) (s : String) :
    (out.write s).1.Accepts ∧ (out.write s).2 = none := by
  unfold Sink.write
  split
  · exact ⟨h, rfl⟩
  · have hhead : out.answers.headD out.refusal = none := by
      cases ha : out.answers with
      | nil => exact h.refusal
      | cons a rest =>
        refine h.answers a ?_
        rw [ha]
        exact List.mem_cons_self
    simp only [hhead]
    exact ⟨⟨fun a ha => h.answers a (List.mem_of_mem_tail ha), h.refusal⟩, trivial⟩

theorem print_of_accepts {m : Machine} (h : m.out.Accepts) (text : String) :
    ∃ out : Sink, out.Accepts ∧ Exec.print text m = (m.apply (.output out), .ok ()) := by
  obtain ⟨haccepts, hnone⟩ := h.write text
  refine ⟨_, haccepts, ?_⟩
  unfold Exec.print
  simp only [hnone]
  rfl

theorem failsFor_print {m : Machine} (h : m.out.Accepts) (text : String) :
    FailsFor (Exec.print text m).2 fun _ => False := by
  obtain ⟨out, -, hprint⟩ := print_of_accepts h text
  rw [hprint]
  exact .ok fun _ => id

theorem isDigit_iff {w : Word} : Exec.isDigit w = true ↔ w.IsPlace 10 := by
  rw [Exec.isDigit, Bool.and_eq_true, decide_eq_true_eq, decide_eq_true_eq, Int64.le_iff_toInt_le,
    Int64.le_iff_toInt_le, Int64.toInt_zero, show (9 : Word).toInt = 9 from rfl, Word.IsPlace]
  omega

/-- One of `count` cells from the stack pointer on is missing or no digit. -/
def DigitFault (m : Machine) (count : Nat) (f : Fault) : Prop :=
  (m.mem.size < m.sp.toInt.toNat + count ∧ f = .stackUnderflow (Int64.ofNat m.mem.size)) ∨
    ∃ j w, j < count ∧ m.mem.cells[m.sp.toInt.toNat + j]? = some w ∧ ¬w.IsPlace 10 ∧
      f = .invalidDigit w

/-- The digits after the first one, for a first cell that is a digit. -/
theorem digitFault_succ {m m' : Machine} {count : Nat} {w : Word} {f : Fault}
    (hmem : m'.mem = m.mem) (hsp : m'.sp.toInt = m.sp.toInt + 1) (hnonneg : 0 ≤ m.sp.toInt)
    (hw : m.mem.cells[m.sp.toInt.toNat]? = some w) (hdigit : w.IsPlace 10) :
    DigitFault m' count f ↔ DigitFault m (count + 1) f := by
  have hnext : m'.sp.toInt.toNat = m.sp.toInt.toNat + 1 := by omega
  unfold DigitFault
  rw [hmem, hnext, Nat.add_right_comm, Nat.add_assoc _ count 1]
  refine or_congr Iff.rfl ?_
  constructor
  · rintro ⟨j, v, hj, hv, hx, rfl⟩
    refine ⟨j + 1, v, by omega, ?_, hx, rfl⟩
    rw [← Nat.add_assoc, Nat.add_right_comm]
    exact hv
  · rintro ⟨j, v, hj, hv, hx, rfl⟩
    cases j with
    | zero =>
      rw [Nat.add_zero, hw] at hv
      cases hv
      exact absurd hdigit hx
    | succ j =>
      refine ⟨j, v, by omega, ?_, hx, rfl⟩
      rw [Nat.add_right_comm, Nat.add_assoc]
      exact hv

/-- By induction on the number of digits: each digit that is there and taken leaves a machine with
the stack pointer one further. -/
theorem failsFor_printDigits {count : Nat} {m : Machine} (hout : m.out.Accepts)
    (h : StackFits m) : FailsFor (Exec.printDigits count m).2 (DigitFault m count) := by
  induction count generalizing m with
  | zero =>
    refine (failsFor_print hout "\n").congr fun f => ⟨False.elim, ?_⟩
    have hle := h.le
    rintro (⟨hlt, -⟩ | ⟨j, w, hj, -⟩)
    · omega
    · omega
  | succ count ih =>
    unfold Exec.printDigits
    rcases Int.lt_or_eq_of_le h.le with hlt | heq
    · obtain ⟨w, hw, hpop⟩ := pop_of_lt h.nonneg hlt
      rw [Exec.bind_of_ok hpop, Exec.perform_bind]
      split
      · rename_i hdigit
        let m₁ := (m.apply (.stack (m.sp + 1))).apply (.register Registers.r1a w)
        obtain ⟨out, hout', hprint⟩ := print_of_accepts (m := m₁) hout (Exec.digitText w)
        have hsp : (m₁.apply (.output out)).sp.toInt = m.sp.toInt + 1 := h.succ hlt
        have hfits : StackFits (m₁.apply (.output out)) := by
          have hnonneg := h.nonneg
          exact ⟨by omega, by rw [hsp]; exact hlt, h.size⟩
        rw [Exec.bind_of_ok hprint]
        exact (ih hout' hfits).congr fun f =>
          digitFault_succ rfl hsp h.nonneg hw (isDigit_iff.mp hdigit)
      · rename_i hdigit
        refine .error (.inr ⟨0, w, Nat.succ_pos count, hw, ?_, rfl⟩)
        exact fun hplace => hdigit (isDigit_iff.mpr hplace)
    · rw [Exec.bind_of_error (pop_of_eq heq)]
      refine .error (.inl ⟨by omega, ?_⟩)
      rw [Word.eq_ofNat_of_toInt_eq heq]

theorem failsFor_printValue {m : Machine} (hout : m.out.Accepts) (h : StackFits m) :
    FailsFor (Exec.printValue m).2 fun f =>
      m.regs.tagA = some .string ∧ DigitFault m m.regs.digitCount f := by
  have hnever : ∀ text (t : Option TypeTag), t ≠ some .string →
      FailsFor (Exec.print text m).2 fun f =>
        t = some .string ∧ DigitFault m m.regs.digitCount f :=
    fun text t ht => (failsFor_print hout text).congr fun f => ⟨False.elim, fun hf => ht hf.1⟩
  unfold Exec.printValue
  rw [Exec.machine_bind]
  cases m.regs.tagA with
  | none => exact .ok fun f hf => nomatch hf.1
  | some t =>
    cases t with
    | bool => exact hnever _ _ (by decide)
    | int => exact hnever _ _ (by decide)
    | float => exact hnever _ _ (by decide)
    | string =>
      exact (failsFor_printDigits hout h).congr fun f => ⟨fun hf => ⟨rfl, hf⟩, And.right⟩

end CellMachine
