import CellMachine.Machine.Within
import CellMachine.Proofs.Machine.Parts

/-!
# CellMachine.Proofs.Machine.Faults

A step fails exactly if there is a cause for it, and with the fault of a cause.

* `act_failsFor`                 — an instruction.
* `failsFor_step`                — a step.
* `Machine.step_error_iff_cause` — the same in the words of errors.
-/

namespace CellMachine

/-! ## Instructions -/

theorem failsFor_compare (m : Machine) {dest src : Word} (hd : m.dest = dest) (hs : m.src = src) :
    FailsFor (Exec.compare dest src m).2 fun f =>
      ∃ index ∈ m.regs.used (.cmp dest src), NoRegister index f := by
  unfold Exec.compare Registers.used
  rw [Exec.machine_bind]
  split
  · have h := failsFor_numbers m
    rw [hd, hs] at h
    exact .bind_perform h
  · refine FailsFor.congr (FailsFor.read_bind (failsFor_register m dest) fun a _ =>
      .bind_perform (failsFor_register m src)) fun f => ?_
    rw [noRegister_pair]

/-- Why arithmetic on words fails, the registers apart. -/
def WordFault (m : Machine) (op : Arith) (src : Word) (f : Fault) : Prop :=
  op.divides = true ∧ m.regs.get src = .ok 0 ∧ f = .divisionByZero m.pc

theorem failsFor_arithmetic_of_ne {m : Machine} (ht : m.regs.tagA ≠ some .float) (op : Arith)
    (dest src : Word) :
    FailsFor (Exec.arithmetic op dest src m).2 fun f =>
      (∃ index ∈ m.regs.used (.arith op dest src), NoRegister index f) ∨
        WordFault m op src f := by
  have hused : m.regs.used (.arith op dest src) = [dest, src] := if_neg ht
  unfold Exec.arithmetic
  rw [Exec.machine_bind, if_neg ht, hused]
  refine FailsFor.congr (FailsFor.read_bind (failsFor_register m src)
    (D := fun f => NoRegister dest f ∨ WordFault m op src f) fun b hb => ?_) fun f => ?_
  · have hb : m.regs.get src = .ok b := mapError_eq_ok_iff.mp hb
    split
    · rename_i hzero
      rw [Bool.and_eq_true, beq_iff_eq] at hzero
      rw [hzero.2] at hb
      exact .error (.inr ⟨hzero.1, hb, rfl⟩)
    · rename_i hzero
      rw [Bool.and_eq_true, beq_iff_eq] at hzero
      refine FailsFor.congr (FailsFor.read_bind (failsFor_register m dest) fun a _ =>
        failsFor_setRegister m dest _) fun f => ?_
      rw [or_self, or_iff_left]
      rintro ⟨hop, hget, -⟩
      rw [hb] at hget
      cases hget
      exact hzero ⟨hop, rfl⟩
  · rw [noRegister_pair, or_assoc, or_left_comm]

/-- Why arithmetic on decimals fails, the registers apart. -/
def NumberFault (m : Machine) (op : Arith) (dest src : Word) (f : Fault) : Prop :=
  ∃ y, m.regs.sourceNumber src = .ok y ∧
    ((op.divides = true ∧ y.isZero = true ∧ f = .divisionByZero m.pc) ∨
      ∃ x e, m.regs.readDecimal dest = .ok x ∧ Unencodable (op.onNumbers x y) e ∧ f = .decimal e)

theorem failsFor_storeNumber {m : Machine} {y : Binary64} (hy : m.regs.readDecimal m.dest = .ok y)
    (x : Binary64) :
    FailsFor (Exec.storeNumber x m).2 fun f => ∃ e, Unencodable x e ∧ f = .decimal e := by
  have hslot : FailsFor ((Registers.decimalSlot m.dest).mapError Fault.register)
      fun _ => False := by
    obtain ⟨i, hi, -⟩ := map_eq_ok_iff.mp hy
    rw [hi]
    exact .ok fun _ => id
  have hstore : FailsFor (m.storeNumber x) fun f => ∃ e, Unencodable x e ∧ f = .decimal e :=
    .bind_except_never (failsFor_ofBinary64 x) fun t _ =>
      .bind_except_never hslot fun i _ => .ok fun _ => id
  exact .bind_perform hstore

theorem failsFor_arithmetic_of_float {m : Machine} (ht : m.regs.tagA = some .float) (op : Arith)
    {dest src : Word} (hd : m.dest = dest) (hs : m.src = src) :
    FailsFor (Exec.arithmetic op dest src m).2 fun f =>
      (∃ index ∈ m.regs.used (.arith op dest src), NoRegister index f) ∨
        NumberFault m op dest src f := by
  have hused : m.regs.used (.arith op dest src) =
      dest :: (dest + 2) :: m.regs.sourceRegisters src := if_pos ht
  have h := failsFor_numbers m
  rw [hd, hs] at h
  unfold Exec.arithmetic
  rw [Exec.machine_bind, if_pos ht, hused]
  refine .read_bind h fun xy hxy => ?_
  obtain ⟨x, y⟩ := xy
  have hnumbers := numbers_eq_ok hxy
  rw [hd, hs] at hnumbers
  obtain ⟨hx, hy⟩ := hnumbers
  simp only
  split
  · rename_i hzero
    rw [Bool.and_eq_true] at hzero
    exact .error ⟨y, hy, .inl ⟨hzero.1, hzero.2, rfl⟩⟩
  · rename_i hzero
    rw [Bool.and_eq_true] at hzero
    refine (failsFor_storeNumber (hd ▸ hx) _).congr fun f => ⟨?_, ?_⟩
    · rintro ⟨e, he, rfl⟩
      exact ⟨y, hy, .inr ⟨x, e, hx, he, rfl⟩⟩
    · rintro ⟨y', hy', hf⟩
      rw [hy] at hy'
      cases hy'
      rcases hf with ⟨hop, hz, -⟩ | ⟨x', e, hx', he, rfl⟩
      · exact absurd ⟨hop, hz⟩ hzero
      · rw [hx] at hx'
        cases hx'
        exact ⟨e, he, rfl⟩

/-- An instruction with none but registers and constants for its operands. -/
def Instruction.IsPlain : Instruction → Prop
  | .sti .. | .ldi .. | .push _ | .pop _ | .arith .. | .prnt => False
  | _ => True

theorem Instruction.cause_iff_of_isPlain {m : Machine} {i : Instruction} {f : Fault}
    (h : i.IsPlain) : (∃ index ∈ m.regs.used i, NoRegister index f) ↔ i.Cause m f := by
  constructor
  · rintro ⟨index, hindex, hx, rfl⟩
    exact .register hindex hx
  · intro hc
    cases hc with
    | register hindex hx => exact ⟨_, hindex, hx, rfl⟩
    | address haddr hx => cases i <;> first | exact h.elim | cases haddr
    | _ => exact h.elim

def Machine.fetched (m : Machine) (inst dest src : Word) : Machine :=
  m.advance.apply (.latch inst dest src)

section Act

variable {m : Machine} {inst dest src : Word}

theorem act_failsFor_of_isPlain {i : Instruction} (h : i.IsPlain)
    (hi : i.operands <+: [dest, src]) :
    FailsFor (Exec.act i (m.fetched inst dest src)).2 (i.Cause m) := by
  refine FailsFor.congr (C := fun f => ∃ index ∈ m.regs.used i, NoRegister index f) ?_
    fun f => Instruction.cause_iff_of_isPlain h
  cases i with
  | cmp d s =>
    obtain ⟨_, heq⟩ := hi
    cases heq
    exact failsFor_compare _ rfl rfl
  | clf =>
    refine .ok ?_
    rintro f ⟨index, ⟨⟩, -⟩
  | jump c target =>
    refine .ok ?_
    rintro f ⟨index, ⟨⟩, -⟩
  | hlt =>
    refine .ok ?_
    rintro f ⟨index, ⟨⟩, -⟩
  | cmpi d imm =>
    exact FailsFor.congr (FailsFor.bind_perform (failsFor_register _ d))
      fun f => noRegister_singleton.symm
  | lii d imm =>
    exact FailsFor.congr (failsFor_setRegister _ d imm) fun f => noRegister_singleton.symm
  | unary op d =>
    refine FailsFor.congr (FailsFor.read_bind (failsFor_register _ d) fun w _ =>
      failsFor_setRegister _ d _) fun f => ?_
    rw [or_self, Registers.used, noRegister_singleton]
  | mov d s =>
    refine FailsFor.congr (FailsFor.read_bind (failsFor_register _ s) fun w _ =>
      failsFor_setRegister _ d _) fun f => ?_
    rw [Registers.used, noRegister_pair, or_comm]
  | bitwise op d s =>
    refine FailsFor.congr (FailsFor.read_bind (failsFor_register _ s) fun b _ =>
      FailsFor.read_bind (failsFor_register _ d) fun a _ => failsFor_setRegister _ d _) fun f => ?_
    rw [Registers.used, noRegister_pair, or_self, or_comm]
  | _ => exact h.elim

theorem act_failsFor_sti (addr reg : Word) :
    FailsFor (Exec.act (.sti addr reg) (m.fetched inst dest src)).2
      (Instruction.Cause m (.sti addr reg)) := by
  refine FailsFor.congr (FailsFor.read_bind (failsFor_register _ reg) fun w _ =>
    failsFor_store _ addr w) fun f => ⟨?_, ?_⟩
  · rintro (⟨hx, rfl⟩ | ⟨hx, rfl⟩)
    · exact .register List.mem_cons_self hx
    · exact .address rfl hx
  · intro hc
    cases hc with
    | register h hx => exact .inl (noRegister_singleton.mp ⟨_, h, hx, rfl⟩)
    | address h hx =>
      cases h
      exact .inr ⟨hx, rfl⟩

theorem act_failsFor_ldi (reg addr : Word) :
    FailsFor (Exec.act (.ldi reg addr) (m.fetched inst dest src)).2
      (Instruction.Cause m (.ldi reg addr)) := by
  refine FailsFor.congr (FailsFor.read_bind (failsFor_load _ addr) fun w _ =>
    failsFor_setRegister _ reg w) fun f => ⟨?_, ?_⟩
  · rintro (⟨hx, rfl⟩ | ⟨hx, rfl⟩)
    · exact .address rfl hx
    · exact .register List.mem_cons_self hx
  · intro hc
    cases hc with
    | register h hx => exact .inr (noRegister_singleton.mp ⟨_, h, hx, rfl⟩)
    | address h hx =>
      cases h
      exact .inl ⟨hx, rfl⟩

theorem act_failsFor_push (h : StackFits m) (reg : Word) :
    FailsFor (Exec.act (.push reg) (m.fetched inst dest src)).2
      (Instruction.Cause m (.push reg)) := by
  have hfits : StackFits (m.fetched inst dest src) := ⟨h.nonneg, h.le, h.size⟩
  refine FailsFor.congr (FailsFor.read_bind (failsFor_register _ reg) fun w _ =>
    failsFor_push hfits w) fun f => ⟨?_, ?_⟩
  · rintro (⟨hx, rfl⟩ | ⟨hsp, rfl⟩)
    · exact .register List.mem_cons_self hx
    · exact .overflow hsp
  · intro hc
    cases hc with
    | register h hx => exact .inl (noRegister_singleton.mp ⟨_, h, hx, rfl⟩)
    | address h hx => cases h
    | overflow hsp => exact .inr ⟨hsp, rfl⟩

theorem act_failsFor_pop (h : StackFits m) (reg : Word) :
    FailsFor (Exec.act (.pop reg) (m.fetched inst dest src)).2
      (Instruction.Cause m (.pop reg)) := by
  have hfits : StackFits (m.fetched inst dest src) := ⟨h.nonneg, h.le, h.size⟩
  refine FailsFor.congr (FailsFor.read_bind (failsFor_register _ reg) fun _ _ =>
    FailsFor.bind (failsFor_pop hfits) fun _ w _ => failsFor_setRegister _ reg w)
    fun f => ⟨?_, ?_⟩
  · rintro (⟨hx, rfl⟩ | ⟨hsp, rfl⟩ | ⟨hx, rfl⟩)
    · exact .register List.mem_cons_self hx
    · exact .underflow hsp
    · exact .register List.mem_cons_self hx
  · intro hc
    cases hc with
    | register h hx => exact .inl (noRegister_singleton.mp ⟨_, h, hx, rfl⟩)
    | address h hx => cases h
    | underflow hsp => exact .inr (.inl ⟨hsp, rfl⟩)

theorem act_failsFor_arith {op : Arith} {d s : Word}
    (hi : (Instruction.arith op d s).operands <+: [dest, src]) :
    FailsFor (Exec.act (.arith op d s) (m.fetched inst dest src)).2
      (Instruction.Cause m (.arith op d s)) := by
  obtain ⟨_, heq⟩ := hi
  cases heq
  by_cases ht : m.regs.tagA = some .float
  · refine FailsFor.congr (failsFor_arithmetic_of_float (m := m.fetched inst dest src) ht op
      rfl rfl) fun f => ⟨?_, ?_⟩
    · rintro (⟨index, hindex, hx, rfl⟩ | ⟨y, hy, ⟨hop, hz, rfl⟩ | ⟨x, e, hx, he, rfl⟩⟩)
      · exact .register hindex hx
      · exact .zeroNumber ht hop hy hz
      · exact .decimal ht hx hy he
    · intro hc
      cases hc with
      | register h hx => exact .inl ⟨_, h, hx, rfl⟩
      | address h hx => cases h
      | zeroWord hne => exact absurd ht hne
      | zeroNumber _ hop hy hz => exact .inr ⟨_, hy, .inl ⟨hop, hz, rfl⟩⟩
      | decimal _ hx hy he => exact .inr ⟨_, hy, .inr ⟨_, _, hx, he, rfl⟩⟩
  · refine FailsFor.congr (failsFor_arithmetic_of_ne (m := m.fetched inst dest src) ht op _ _)
      fun f => ⟨?_, ?_⟩
    · rintro (⟨index, hindex, hx, rfl⟩ | ⟨hop, hget, rfl⟩)
      · exact .register hindex hx
      · exact .zeroWord ht hop hget
    · intro hc
      cases hc with
      | register h hx => exact .inl ⟨_, h, hx, rfl⟩
      | address h hx => cases h
      | zeroWord _ hop hget => exact .inr ⟨hop, hget, rfl⟩
      | zeroNumber hfloat => exact absurd hfloat ht
      | decimal hfloat => exact absurd hfloat ht

theorem act_failsFor_prnt (hout : m.out.Accepts) (h : StackFits m) :
    FailsFor (Exec.act .prnt (m.fetched inst dest src)).2 (Instruction.Cause m .prnt) := by
  have hfits : StackFits (m.fetched inst dest src) := ⟨h.nonneg, h.le, h.size⟩
  refine FailsFor.congr (failsFor_printValue (m := m.fetched inst dest src) hout hfits)
    fun f => ⟨?_, ?_⟩
  · rintro ⟨ht, ⟨hlt, rfl⟩ | ⟨j, w, hj, hw, hx, rfl⟩⟩
    · exact .pastEnd ht hlt
    · exact .digit ht hj hw hx
  · intro hc
    cases hc with
    | register h hx => cases h
    | address h hx => cases h
    | pastEnd ht hlt => exact ⟨ht, .inl ⟨hlt, rfl⟩⟩
    | digit ht hj hw hx => exact ⟨ht, .inr ⟨_, _, hj, hw, hx, rfl⟩⟩

theorem act_failsFor (hout : m.out.Accepts) (h : StackFits m) {i : Instruction}
    (hi : i.operands <+: [dest, src]) :
    FailsFor (Exec.act i (m.fetched inst dest src)).2 (i.Cause m) := by
  cases i with
  | sti addr reg => exact act_failsFor_sti addr reg
  | ldi reg addr => exact act_failsFor_ldi reg addr
  | push reg => exact act_failsFor_push h reg
  | pop reg => exact act_failsFor_pop h reg
  | arith op d s => exact act_failsFor_arith hi
  | prnt => exact act_failsFor_prnt hout h
  | _ => exact act_failsFor_of_isPlain trivial hi

end Act

/-! ## Steps -/

theorem get?_of_toInt_eq {mem : Memory} {addr : Word} {p : Nat} (h : addr.toInt = (p : Int)) :
    mem.get? addr = mem.cells[p]? := by
  unfold Memory.get?
  by_cases hp : p < mem.size
  · rw [Word.place?_of_toInt_eq h hp]
    exact (Array.getElem?_eq_getElem hp).symm
  · rw [Word.place?_of_not_isPlace fun hplace => hp (by have := hplace.2; omega)]
    exact (Array.getElem?_eq_none (Nat.not_lt.mp hp)).symm

/-- The operands of an instruction at the next address are the two cells after its first one. -/
theorem operands_of_isPrefix {m : Machine} {p : Nat} {i : Instruction} (hn : Word.Covers m.mem.size)
    (hp : m.next.toInt = (p : Int)) (hi : i.encode <+: m.mem.cells.toList.drop p) :
    i.operands <+: [(m.mem.get? (m.next + 1)).getD 0, (m.mem.get? (m.next + 2)).getD 0] := by
  have hcell : ∀ k (hk : k < i.operands.length),
      m.mem.cells[p + (k + 1)]? = some i.operands[k] := by
    intro k hk
    rw [← Array.getElem?_toList, ← List.getElem?_drop,
      List.prefix_iff_getElem?.mp hi (k + 1) (Nat.succ_lt_succ hk)]
    rfl
  have hsize : ∀ k, k < i.operands.length → p + (k + 1) < m.mem.size := fun k hk =>
    (Array.getElem?_eq_some_iff.mp (hcell k hk)).1
  have hlen : i.operands.length ≤ 2 := by
    have hwidth := i.opcode.width_le_three
    rw [Opcode.width, ← i.length_operands] at hwidth
    omega
  have hone : ∀ k, k < i.operands.length → (m.next + 1).toInt = ((p + 1 : Nat) : Int) := by
    intro k hk
    have hlt := hsize k hk
    rw [Word.toInt_add_one hn (by omega)]
    omega
  -- An instruction has two operands at most, so these are all the cells that matter.
  refine List.prefix_iff_getElem?.mpr fun k hk => ?_
  obtain rfl | rfl : k = 0 ∨ k = 1 := by omega
  · show some _ = _
    rw [get?_of_toInt_eq (hone 0 hk), hcell 0 hk]
    rfl
  · have hlt := hsize 1 hk
    have htwo : (m.next + 2).toInt = ((p + 2 : Nat) : Int) := by
      have hone := hone 1 hk
      rw [show m.next + 2 = m.next + 1 + 1 by rw [Int64.add_assoc]; rfl,
        Word.toInt_add_one hn (by omega)]
      omega
    show some _ = _
    rw [get?_of_toInt_eq htwo, hcell 1 hk]
    rfl

/-- A fetch inside memory decodes the cells from the next address on. -/
theorem fetch_of_lt {m : Machine} {p : Nat} (hp : m.next.toInt = (p : Int))
    (hlt : p < m.mem.size) :
    let m₁ := m.fetched m.mem.cells[p] ((m.mem.get? (m.next + 1)).getD 0)
      ((m.mem.get? (m.next + 2)).getD 0)
    Exec.fetch m.advance = (m₁, Exec.decoded m₁ (m.mem.cells.toList.drop p)) := by
  have hplace : m.next.place? m.mem.size = some ⟨p, hlt⟩ := Word.place?_of_toInt_eq hp hlt
  have hload : m.advance.load m.advance.pc = .ok m.mem.cells[p] := by
    show (m.mem.read m.next).mapError Fault.memory = _
    rw [Memory.read, Memory.index, hplace]
    rfl
  have hwindow : (m.mem.window m.next 3).mapError Fault.memory =
      .ok ((m.mem.cells.toList.drop p).take 3) := by
    rw [Memory.window, Memory.index, hplace]
    show Except.ok (m.mem.slice p 3) = _
    rw [Memory.slice, Array.toList_extract, List.extract_eq_take_drop, Nat.add_sub_cancel_left]
  unfold Exec.fetch Exec.load
  rw [Exec.machine_bind, Exec.read_bind_of_ok hload, Exec.perform_bind]
  refine (Exec.read_bind_of_ok hwindow _).trans ?_
  rw [Exec.read_apply, Exec.decoded, Instruction.decode_take_three]
  rfl

/-- A fetch keeps the operands of an instruction at the next address. -/
theorem fetch_of_isPlace {m : Machine} {p : Nat} (hn : Word.Covers m.mem.size)
    (hp : m.next.toInt = (p : Int)) (hlt : p < m.mem.size) :
    ∃ inst dest src,
      Exec.fetch m.advance = (m.fetched inst dest src,
        Exec.decoded (m.fetched inst dest src) (m.mem.cells.toList.drop p)) ∧
      ∀ i : Instruction, i.encode <+: m.mem.cells.toList.drop p → i.operands <+: [dest, src] :=
  ⟨_, _, _, fetch_of_lt hp hlt, fun _ => operands_of_isPrefix hn hp⟩

theorem fetch_of_not_isPlace {m : Machine} (h : ¬m.next.IsPlace m.mem.size) :
    Exec.fetch m.advance =
      (m.advance, .error (.memory (.addressOutOfRange m.next m.mem.size))) := by
  have hload : m.advance.load m.advance.pc =
      .error (.memory (.addressOutOfRange m.next m.mem.size)) := by
    show (m.mem.read m.next).mapError Fault.memory = _
    rw [Memory.read, Memory.index, Word.place?_of_not_isPlace h]
    rfl
  unfold Exec.fetch
  rw [Exec.machine_bind]
  exact Exec.bind_of_error (congrArg (Prod.mk m.advance) hload) _

theorem decoded_eq_ok {m : Machine} {cells : List Word} {i : Option Instruction}
    (h : Exec.decoded m cells = .ok i) :
    (∃ j, i = some j ∧ Instruction.decode cells = .ok j) ∨
      (i = none ∧ ∃ w, Instruction.decode cells = .error (.invalidOpcode w)) := by
  unfold Exec.decoded at h
  split at h
  · rename_i j hj
    cases h
    exact .inl ⟨j, rfl, hj⟩
  · rename_i w hw
    split at h
    · cases h
    · cases h
      exact .inr ⟨rfl, w, hw⟩
  · cases h
  · cases h

/-- A fetch that does not fail has read inside memory. -/
theorem fetch_eq_ok {m m₁ : Machine} {i : Option Instruction}
    (h : Exec.fetch m.advance = (m₁, .ok i)) :
    ∃ (p : Nat) (inst dest src : Word), m.next.toInt = (p : Int) ∧ p < m.mem.size ∧
      m₁ = m.fetched inst dest src ∧ Exec.decoded m₁ (m.mem.cells.toList.drop p) = .ok i := by
  by_cases hplace : m.next.IsPlace m.mem.size
  · obtain ⟨⟨p, hlt⟩, -, hp⟩ := Word.exists_place? hplace
    obtain ⟨rfl, hdecoded⟩ := Prod.mk.inj ((fetch_of_lt hp hlt).symm.trans h)
    exact ⟨p, _, _, _, hp, hlt, rfl, hdecoded⟩
  · rw [fetch_of_not_isPlace hplace] at h
    cases h

/-- Why a step fails, for a next address inside memory. -/
theorem cause_iff_of_isPlace {m : Machine} {p : Nat} {cell : Word} {f : Fault}
    (hp : m.next.toInt = (p : Int)) (hcell : m.mem.cells[p]? = some cell) :
    m.Cause f ↔
      (Opcode.ofCell? cell = none ∧ m.config.unknownOpcode = .fault ∧
        f = .unknownOpcode cell m.next) ∨
      (∃ op, Opcode.ofCell? cell = some op ∧ m.mem.size < p + op.width ∧
        f = .memory (.addressOutOfRange (Int64.ofNat m.mem.size) m.mem.size)) ∨
      ∃ i, Instruction.decode (m.mem.cells.toList.drop p) = .ok i ∧ i.Cause m f := by
  have hplace : m.next.IsPlace m.mem.size := by
    have hlt := (Array.getElem?_eq_some_iff.mp hcell).1
    refine ⟨by omega, ?_⟩
    rw [hp]
    exact_mod_cast hlt
  constructor
  · intro hc
    cases hc with
    | outside h => exact absurd hplace h
    | @unknown q w hq hw h hpolicy =>
      obtain rfl : p = q := by omega
      rw [hcell] at hw
      cases hw
      exact .inl ⟨Opcode.ofCell?_eq_none_iff.mpr h, hpolicy, rfl⟩
    | @truncated q op hq hw h =>
      obtain rfl : p = q := by omega
      rw [hcell] at hw
      cases hw
      exact .inr (.inl ⟨op, Opcode.ofCell?_cell op, h, rfl⟩)
    | @instruction i _ hi h =>
      obtain ⟨q, hq, hprefix⟩ := hi
      obtain rfl : p = q := by omega
      exact .inr (.inr ⟨i, Instruction.decode_of_prefix hprefix, h⟩)
  · rintro (⟨h, hpolicy, rfl⟩ | ⟨op, hop, h, rfl⟩ | ⟨i, hi, h⟩)
    · exact .unknown hp hcell (Opcode.ofCell?_eq_none_iff.mp h) hpolicy
    · rw [← Opcode.cell_of_ofCell? hop] at hcell
      exact .truncated hp hcell h
    · exact .instruction ⟨p, hp, Instruction.decode_eq_ok_iff.mp hi⟩ h

@[simp] theorem config_apply (m : Machine) (e : Effect) : (m.apply e).config = m.config := by
  cases e <;> rfl

theorem config_execute (i : Instruction) (m : Machine) :
    (Exec.execute i m).1.config = m.config := by
  have h : Exec.Within (fun _ _ => True) (Exec.execute i) :=
    Exec.within_execute (fun _ _ => trivial) fun _ _ _ => trivial
  exact (h m).keeps (P := fun m' => m'.config = m.config)
    (fun m' e hm _ => (config_apply m' e).trans hm) rfl

theorem attempt_of_fetch_none {m m₁ : Machine} (h : Exec.fetch m = (m₁, .ok none))
    (hd : m₁.config.debug = false) : Exec.attempt m = (m₁, .ok none) := by
  unfold Exec.attempt
  rw [Exec.bind_of_ok h]
  show (if m₁.config.debug then _ else _ : Exec _) m₁ = _
  rw [if_neg (by rw [hd]; exact Bool.false_ne_true)]
  rfl

/-- Without a trace, an attempt ends as the instruction does that was fetched. -/
theorem attempt_of_fetch_some {m m₁ : Machine} {i : Instruction}
    (h : Exec.fetch m = (m₁, .ok (some i))) (hd : m₁.config.debug = false) :
    Exec.attempt m =
      ((Exec.execute i m₁).1, (Exec.execute i m₁).2.map fun _ => some i) := by
  have hconfig := config_execute i m₁
  unfold Exec.attempt
  rw [Exec.bind_of_ok h, show (some i).elim (return) Exec.execute = Exec.execute i from rfl]
  cases hexecute : Exec.execute i m₁ with
  | mk m₂ r =>
    rw [hexecute] at hconfig
    cases r with
    | error f => exact Exec.bind_of_error hexecute _
    | ok _ =>
      rw [Exec.bind_of_ok hexecute]
      show (if m₂.config.debug then _ else _ : Exec _) m₂ = _
      rw [hconfig, if_neg (by rw [hd]; exact Bool.false_ne_true)]
      rfl

theorem failsFor_attempt_of_fetch {m m₁ : Machine} {i : Instruction} {C : Fault → Prop}
    (h : Exec.fetch m = (m₁, .ok (some i))) (hd : m₁.config.debug = false)
    (hact : FailsFor (Exec.act i m₁).2 C) : FailsFor (Exec.attempt m).2 C := by
  have hexecute : FailsFor (Exec.execute i m₁).2 C :=
    .bind_never hact fun _ _ _ => .ok fun _ => id
  rw [attempt_of_fetch_some h hd]
  exact hexecute.map _

theorem failsFor_step_of_attempt {m : Machine} {C : Fault → Prop} (hr : m.status = .running)
    (h : FailsFor (Exec.attempt m.advance).2 C) : FailsFor m.step.2 C := by
  cases ha : Exec.attempt m.advance with
  | mk m₁ r =>
    rw [ha] at h
    cases r with
    | ok i =>
      rw [Machine.step_of_ok hr ha]
      exact .ok fun f hf => by
        obtain ⟨g, hg⟩ := h.fails f hf
        cases hg
    | error g =>
      rw [Machine.step_of_error hr ha]
      exact .error (h.fault g rfl)

theorem failsFor_attempt_of_error {m m₁ : Machine} {g : Fault} {C : Fault → Prop}
    (h : Exec.fetch m = (m₁, .error g)) (hg : C g) : FailsFor (Exec.attempt m).2 C := by
  unfold Exec.attempt
  rw [Exec.bind_of_error h]
  exact .error hg

section Attempt

variable {m : Machine} {p : Nat} {inst dest src : Word}

theorem failsFor_attempt_of_unknown (hd : m.config.debug = false) (hp : m.next.toInt = (p : Int))
    (hlt : p < m.mem.size) (hop : Opcode.ofCell? m.mem.cells[p] = none)
    (hfetch : Exec.fetch m.advance = (m.fetched inst dest src,
      Exec.decoded (m.fetched inst dest src) (m.mem.cells.toList.drop p))) :
    FailsFor (Exec.attempt m.advance).2 m.Cause := by
  have hcause := fun f => cause_iff_of_isPlace (f := f) hp (Array.getElem?_eq_getElem hlt)
  have hdecode : Instruction.decode (m.mem.cells.toList.drop p) =
      .error (.invalidOpcode m.mem.cells[p]) := by
    rw [List.drop_eq_getElem_cons hlt]
    exact Instruction.decode_of_ofCell?_eq_none _ hop
  rw [Exec.decoded, hdecode] at hfetch
  cases hpolicy : m.config.unknownOpcode with
  | fault =>
    have hpolicy' : (m.fetched inst dest src).config.unknownOpcode = .fault := hpolicy
    simp only [hpolicy'] at hfetch
    exact failsFor_attempt_of_error hfetch ((hcause _).mpr (.inl ⟨hop, hpolicy, rfl⟩))
  | ignore =>
    have hpolicy' : (m.fetched inst dest src).config.unknownOpcode = .ignore := hpolicy
    simp only [hpolicy'] at hfetch
    rw [attempt_of_fetch_none hfetch hd]
    refine .ok fun f hf => ?_
    rcases (hcause f).mp hf with ⟨-, hfault, -⟩ | ⟨op, hop', -⟩ | ⟨i, hi, -⟩
    · rw [hpolicy] at hfault
      cases hfault
    · rw [hop] at hop'
      cases hop'
    · rw [hdecode] at hi
      cases hi

theorem failsFor_attempt_of_truncated {op : Opcode} (hp : m.next.toInt = (p : Int))
    (hlt : p < m.mem.size) (hop : Opcode.ofCell? m.mem.cells[p] = some op)
    (hshort : m.mem.size < p + op.width)
    (hfetch : Exec.fetch m.advance = (m.fetched inst dest src,
      Exec.decoded (m.fetched inst dest src) (m.mem.cells.toList.drop p))) :
    FailsFor (Exec.attempt m.advance).2 m.Cause := by
  have hlen : (m.mem.cells.toList.drop (p + 1)).length = m.mem.size - (p + 1) := List.length_drop
  have hfew : (m.mem.cells.toList.drop (p + 1)).length < op.fields.length := by
    rw [Opcode.width] at hshort
    omega
  have hdecode : Instruction.decode (m.mem.cells.toList.drop p) =
      .error (.truncated op (m.mem.size - p)) := by
    rw [List.drop_eq_getElem_cons hlt, Array.getElem_toList, ← Opcode.cell_of_ofCell? hop,
      Instruction.decode_of_length_lt hfew, hlen]
    congr 2
    omega
  have haddr : m.next + Int64.ofNat (m.mem.size - p) = Int64.ofNat m.mem.size := by
    rw [Word.eq_ofNat_of_toInt_eq hp, ← Int64.ofNat_add, Nat.add_sub_cancel' (Nat.le_of_lt hlt)]
  rw [Exec.decoded, hdecode] at hfetch
  refine failsFor_attempt_of_error hfetch ?_
  show m.Cause (.memory (.addressOutOfRange (m.next + _) m.mem.size))
  rw [haddr, cause_iff_of_isPlace hp (Array.getElem?_eq_getElem hlt)]
  exact .inr (.inl ⟨op, hop, hshort, rfl⟩)

theorem failsFor_attempt_of_fits {op : Opcode} (hd : m.config.debug = false)
    (hout : m.out.Accepts) (hfits : StackFits m) (hp : m.next.toInt = (p : Int))
    (hlt : p < m.mem.size) (hop : Opcode.ofCell? m.mem.cells[p] = some op)
    (hfit : p + op.width ≤ m.mem.size)
    (hfetch : Exec.fetch m.advance = (m.fetched inst dest src,
      Exec.decoded (m.fetched inst dest src) (m.mem.cells.toList.drop p)))
    (hops : ∀ i : Instruction, i.encode <+: m.mem.cells.toList.drop p →
      i.operands <+: [dest, src]) :
    FailsFor (Exec.attempt m.advance).2 m.Cause := by
  have hlen : (m.mem.cells.toList.drop (p + 1)).length = m.mem.size - (p + 1) := List.length_drop
  obtain ⟨i, hdecode⟩ : ∃ i, Instruction.decode (m.mem.cells.toList.drop p) = .ok i := by
    rw [List.drop_eq_getElem_cons hlt, Array.getElem_toList, ← Opcode.cell_of_ofCell? hop]
    refine Instruction.exists_decode ?_
    rw [Opcode.width] at hfit
    omega
  rw [Exec.decoded, hdecode] at hfetch
  refine failsFor_attempt_of_fetch hfetch hd ?_
  refine (act_failsFor hout hfits (hops i (Instruction.decode_eq_ok_iff.mp hdecode))).congr
    fun f => ?_
  rw [cause_iff_of_isPlace hp (Array.getElem?_eq_getElem hlt), hdecode]
  constructor
  · intro h
    exact .inr (.inr ⟨i, rfl, h⟩)
  · rintro (⟨hnone, -⟩ | ⟨op', hop', hshort, -⟩ | ⟨i', ⟨⟩, h⟩)
    · rw [hop] at hnone
      cases hnone
    · rw [hop] at hop'
      cases hop'
      exact absurd hfit (Nat.not_le.mpr hshort)
    · exact h

end Attempt

theorem failsFor_attempt {m : Machine} (hd : m.config.debug = false) (hout : m.out.Accepts)
    (hfits : StackFits m) : FailsFor (Exec.attempt m.advance).2 m.Cause := by
  by_cases hplace : m.next.IsPlace m.mem.size
  · obtain ⟨⟨p, hlt⟩, -, hp⟩ := Word.exists_place? hplace
    obtain ⟨inst, dest, src, hfetch, hops⟩ := fetch_of_isPlace hfits.size hp hlt
    cases hop : Opcode.ofCell? m.mem.cells[p] with
    | none => exact failsFor_attempt_of_unknown hd hp hlt hop hfetch
    | some op =>
      rcases Nat.lt_or_ge m.mem.size (p + op.width) with hshort | hfit
      · exact failsFor_attempt_of_truncated hp hlt hop hshort hfetch
      · exact failsFor_attempt_of_fits hd hout hfits hp hlt hop hfit hfetch hops
  · exact failsFor_attempt_of_error (fetch_of_not_isPlace hplace) (.outside hplace)

theorem failsFor_step {m : Machine} (hr : m.status = .running) (hd : m.config.debug = false)
    (hout : m.out.Accepts) (hfits : StackFits m) : FailsFor m.step.2 m.Cause :=
  failsFor_step_of_attempt hr (failsFor_attempt hd hout hfits)

namespace Machine

/-- The step of a machine that runs without a trace over a sink that takes every write fails
exactly if there is a cause, and with the fault of a cause. -/
theorem step_error_iff_cause {m : Machine} (hr : m.status = .running)
    (hd : m.config.debug = false) (hout : m.out.Accepts) (hsize : Word.Covers m.mem.size)
    (hnonneg : 0 ≤ m.sp.toInt) (hle : m.sp.toInt ≤ m.mem.size) :
    ((∃ f, m.step.2 = .error f) ↔ ∃ f, m.Cause f) ∧ ∀ f, m.step.2 = .error f → m.Cause f := by
  have h := failsFor_step hr hd hout ⟨hnonneg, hle, hsize⟩
  refine ⟨⟨?_, ?_⟩, h.fault⟩
  · rintro ⟨f, hf⟩
    exact ⟨f, h.fault f hf⟩
  · rintro ⟨f, hf⟩
    exact h.fails f hf

/-- `DIV 1, 9` over registers of zeros. -/
theorem step_error_iff_cause_division :
    (new ⟨#[14, 1, 9]⟩).step.2 = .error (.divisionByZero 0) ∧
      (new ⟨#[14, 1, 9]⟩).Cause (.divisionByZero 0) := by
  have herror : (new ⟨#[14, 1, 9]⟩).step.2 = .error (.divisionByZero 0) := by rfl
  have hout : (new ⟨#[14, 1, 9]⟩).out.Accepts := ⟨fun _ h => absurd h List.not_mem_nil, rfl⟩
  exact ⟨herror, (step_error_iff_cause rfl rfl hout (by decide) (by decide) (by decide)).2 _
    herror⟩

end Machine

end CellMachine
