import CellMachine.Proofs.Machine.Decimals
import CellMachine.Proofs.Machine.DigitRow

/-!
# CellMachine.Proofs.Machine.Frame

What a step leaves as it was.

* `Exec.setRegister_eq_ok`, …    — what the parts of an instruction have done that did not fail.
* `Registers.changed`, `Machine.written?`, `Machine.moved`, `Instruction.SetsFlags` — what an
  instruction may change.
* `Machine.Framed`      — it has changed nothing else.
* `Machine.framed_act`  — an instruction that did not fail.
* `Machine.step_frame`  — a step that did not fail.
-/

namespace CellMachine

variable {m m' : Machine} {w : Word}

/-! ## Parts of instructions -/

namespace Exec

theorem setRegister_eq_ok {index : Word} (h : setRegister index w m = (m', .ok ())) :
    ∃ i : Fin 16, index.toInt = (i.val : Int) ∧ m' = m.apply (.register i w) := by
  obtain ⟨i, hi, h⟩ := read_bind_eq_ok h
  cases h
  exact ⟨i, Registers.slot_eq_ok_iff.mp (mapError_eq_ok_iff.mp hi), rfl⟩

theorem store_eq_ok {addr : Word} (h : store addr w m = (m', .ok ())) :
    ∃ p < m.mem.size, addr.toInt = (p : Int) ∧ m' = m.apply (.store p w) := by
  obtain ⟨p, hp, h⟩ := read_bind_eq_ok h
  cases h
  obtain ⟨i, hi, rfl⟩ := map_eq_ok_iff.mp hp
  exact ⟨i.val, i.isLt, Memory.index_eq_ok_iff.mp (mapError_eq_ok_iff.mp hi), rfl⟩

theorem push_eq_ok (h : push w m = (m', .ok ())) :
    0 < m.sp.toInt ∧ ∃ p < m.mem.size, (m.sp - 1).toInt = (p : Int) ∧
      m' = (m.apply (.store p w)).apply (.stack (m.sp - 1)) := by
  unfold push at h
  rw [machine_bind] at h
  split at h
  · cases h
  · rename_i hsp
    rw [Int64.le_iff_toInt_le, Int64.toInt_zero] at hsp
    obtain ⟨m₁, _, hstore, h⟩ := bind_eq_ok h
    obtain ⟨p, hlt, hp, rfl⟩ := store_eq_ok hstore
    cases h
    exact ⟨Int.not_le.mp hsp, p, hlt, hp, rfl⟩

theorem pop_eq_ok (h : pop m = (m', .ok w)) :
    0 ≤ m.sp.toInt ∧ m.sp.toInt < m.mem.size ∧ m' = m.apply (.stack (m.sp + 1)) := by
  unfold pop at h
  rw [machine_bind] at h
  split at h
  · cases h
  · rename_i hsp
    rw [Int64.lt_iff_toInt_lt, Int64.toInt_zero] at hsp
    obtain ⟨w', -, h⟩ := read_bind_eq_ok h
    cases h
    exact ⟨by omega, by omega, rfl⟩

theorem print_eq_ok {text : String} (h : print text m = (m', .ok ())) :
    ∃ out : Sink, out.text = m.out.text ++ text ∧ m' = m.apply (.output out) := by
  rcases print_cases m text with ⟨out, hout, hprint⟩ | ⟨m₁, reason, hprint⟩
  · cases hprint.symm.trans h
    exact ⟨out, hout, rfl⟩
  · cases hprint.symm.trans h

theorem storeNumber_eq_ok {x : Binary64} (h : storeNumber x m = (m', .ok ())) :
    ∃ (i : Fin 14) (t : Triple), m.dest.toInt = (i.val : Int) ∧ m' = m.apply (.decimal i t) := by
  obtain ⟨e, he, h⟩ := read_bind_eq_ok h
  cases h
  obtain ⟨t, -, he⟩ := bind_eq_ok_iff.mp he
  obtain ⟨i, hi, he⟩ := bind_eq_ok_iff.mp he
  cases he
  exact ⟨i, t, Registers.decimalSlot_eq_ok_iff.mp (mapError_eq_ok_iff.mp hi), rfl⟩

/-- Digits that were printed were all there. The first one, if there is any, was popped from a stack
pointer inside memory. -/
theorem printDigits_eq_ok (hn : Word.Covers m.mem.size) {count : Nat}
    (h : printDigits count m = (m', .ok ())) : ∃ text, m.Popped count text m' := by
  cases count with
  | zero =>
    obtain ⟨out, hout, rfl⟩ := print_eq_ok h
    exact ⟨_, (Int.add_zero _).symm, hout, rfl, fun _ _ => rfl, rfl, rfl⟩
  | succ count =>
    obtain ⟨hnonneg, hlt⟩ : 0 ≤ m.sp.toInt ∧ m.sp.toInt < m.mem.size := by
      rw [printDigits] at h
      obtain ⟨m₁, w, hpop, -⟩ := bind_eq_ok h
      exact ⟨(pop_eq_ok hpop).1, (pop_eq_ok hpop).2.1⟩
    obtain ⟨m₁, r, hprint, hr⟩ :=
      Machine.printDigits_cases ⟨hnonneg, Int.le_of_lt hlt, hn⟩ (count + 1)
    cases hprint.symm.trans h
    rcases hr with ⟨reason, ⟨⟩⟩ | ⟨-, hpopped⟩
    exact ⟨_, hpopped⟩

end Exec

/-! ## What an instruction may change -/

/-- The registers that an instruction changes. -/
def Registers.changed (regs : Registers) : Instruction → List Word
  | .mov dest _ | .ldi dest _ | .lii dest _ | .pop dest | .unary _ dest | .bitwise _ dest _ =>
    [dest]
  | .arith _ dest _ => if regs.word r0a = 2 then [dest, dest + 1, dest + 2] else [dest]
  | .prnt => if regs.word r0a = 3 then [Int64.ofNat r1a] else []
  | .clf | .cmp .. | .cmpi .. | .sti .. | .push _ | .jump .. | .hlt => []

def Instruction.SetsFlags : Instruction → Prop
  | .clf | .cmp .. | .cmpi .. => True
  | _ => False

namespace Machine

/-- The address of the cell that an instruction changes, and the register whose word goes there. -/
def written? (m : Machine) : Instruction → Option (Word × Word)
  | .sti addr src => some (addr, src)
  | .push reg => some (m.sp - 1, reg)
  | _ => none

/-- How far an instruction moves the stack pointer. -/
def moved (m : Machine) : Instruction → Int
  | .push _ => -1
  | .pop _ => 1
  | .prnt => if m.regs.word Registers.r0a = 3 then (m.regs.word Registers.r1a).toInt.toNat else 0
  | _ => 0

end Machine

/-- `mem'` is `mem` but for the cell at `addr`, which holds `w`. -/
structure Memory.Written (mem : Memory) (addr w : Word) (mem' : Memory) : Prop where
  size : mem'.size = mem.size
  cell : mem'.get? addr = some w
  other : ∀ a, a ≠ addr → mem'.get? a = mem.get? a

theorem Memory.written_put {mem : Memory} {addr : Word} {p : Nat} (hp : addr.toInt = (p : Int))
    (hlt : p < mem.size) (w : Word) : mem.Written addr w (mem.put p w) where
  size := mem.size_put p w
  cell := by
    rw [get?_of_toInt_eq hp]
    exact Array.getElem?_setIfInBounds_self_of_lt hlt
  other a ha := by
    by_cases hplace : a.IsPlace mem.size
    · obtain ⟨q, -, hq⟩ := Word.exists_place? hplace
      have hne : p ≠ q.val := by
        rintro rfl
        exact ha (Int64.toInt_inj.mp (hq.trans hp.symm))
      rw [get?_of_toInt_eq hq, get?_of_toInt_eq hq]
      exact Array.getElem?_setIfInBounds_ne hne
    · have hplace' : ¬a.IsPlace (mem.put p w).size := by
        rw [size_put]
        exact hplace
      rw [get?, get?, Word.place?_of_not_isPlace hplace, Word.place?_of_not_isPlace hplace']
      rfl

namespace Machine

/-- `m'` is `m` but for what `i` may change: registers, flags, one cell, the stack pointer and the end
of the output. -/
structure Framed (m : Machine) (i : Instruction) (m' : Machine) : Prop where
  registers : ∀ j : Fin 16, Int64.ofNat j ∉ m.regs.changed i → m'.regs.word j = m.regs.word j
  flags : ¬i.SetsFlags → m'.regs.flags = m.regs.flags
  memory : m.written? i = none → m'.mem = m.mem
  cell : ∀ addr reg, m.written? i = some (addr, reg) →
    ∃ w, m.regs.get reg = .ok w ∧ m.mem.Written addr w m'.mem
  sp : m'.sp.toInt = m.sp.toInt + m.moved i
  output : ∃ text, m'.out.text = m.out.text ++ text ∧ (i ≠ .prnt → text = "")

variable {i : Instruction} {inst dest src : Word}

namespace Framed

theorem of_sameData (hwritten : m.written? i = none) (hmoved : m.moved i = 0)
    (h : m.SameData m') : m.Framed i m' := by
  obtain ⟨hregs, hsp, hmem, hout⟩ := h
  constructor
  · intro j _
    rw [hregs]
  · intro _
    rw [hregs]
  · exact fun _ => hmem
  · intro addr reg hsome
    rw [hwritten] at hsome
    cases hsome
  · rw [hsp, hmoved, Int.add_zero]
  · exact ⟨"", by rw [hout, String.append_empty], fun _ => rfl⟩

theorem of_flags (hi : i.SetsFlags) (hwritten : m.written? i = none) (hmoved : m.moved i = 0)
    (hwords : m'.regs.r = m.regs.r) (hsp : m'.sp = m.sp) (hmem : m'.mem = m.mem)
    (hout : m'.out = m.out) : m.Framed i m' := by
  have h : m.Framed i { m' with regs := m.regs } := of_sameData hwritten hmoved ⟨rfl, hsp, hmem, hout⟩
  refine ⟨fun j _ => ?_, fun hnot => absurd hi hnot, h.memory, h.cell, h.sp, h.output⟩
  rw [Registers.word, hwords]
  rfl

/-- One register, and perhaps the stack pointer. -/
theorem of_register {d : Fin 16} (hd : dest.toInt = (d.val : Int))
    (hchanged : dest ∈ m.regs.changed i) (hwritten : m.written? i = none)
    (hregs : m'.regs = m.regs.put d w) (hsp : m'.sp.toInt = m.sp.toInt + m.moved i)
    (hmem : m'.mem = m.mem) (hout : m'.out = m.out) : m.Framed i m' := by
  constructor
  · intro j hj
    rw [hregs]
    refine Registers.word_put_of_ne (fun hjd => hj ?_) _ w
    rw [hjd, ← Word.eq_ofNat_of_toInt_eq hd]
    exact hchanged
  · intro _
    rw [hregs]
    rfl
  · exact fun _ => hmem
  · intro addr reg hsome
    rw [hwritten] at hsome
    cases hsome
  · exact hsp
  · exact ⟨"", by rw [hout, String.append_empty], fun _ => rfl⟩

/-- One cell, and perhaps the stack pointer. -/
theorem of_cell {addr reg : Word} {p : Nat} (hwritten : m.written? i = some (addr, reg))
    (hw : m.regs.get reg = .ok w) (hp : addr.toInt = (p : Int)) (hlt : p < m.mem.size)
    (hmem : m'.mem = m.mem.put p w) (hsp : m'.sp.toInt = m.sp.toInt + m.moved i)
    (hregs : m'.regs = m.regs) (hout : m'.out = m.out) : m.Framed i m' := by
  constructor
  · intro j _
    rw [hregs]
  · intro _
    rw [hregs]
  · intro hnone
    rw [hwritten] at hnone
    cases hnone
  · intro addr' reg' hsome
    rw [hwritten] at hsome
    cases hsome
    rw [hmem]
    exact ⟨w, hw, Memory.written_put hp hlt w⟩
  · exact hsp
  · exact ⟨"", by rw [hout, String.append_empty], fun _ => rfl⟩

end Framed

/-! ## Instructions -/

theorem framed_setRegister (hchanged : dest ∈ m.regs.changed i) (hwritten : m.written? i = none)
    (hmoved : m.moved i = 0) (h : Exec.setRegister dest w m = (m', .ok ())) : m.Framed i m' := by
  obtain ⟨d, hd, rfl⟩ := Exec.setRegister_eq_ok h
  refine .of_register hd hchanged hwritten rfl ?_ rfl rfl
  rw [hmoved, Int.add_zero]
  rfl

theorem framed_compare (h : Exec.act (.cmp dest src) m = (m', .ok ())) :
    m.Framed (.cmp dest src) m' := by
  change Exec.compare dest src m = _ at h
  unfold Exec.compare at h
  rw [Exec.machine_bind] at h
  split at h
  · obtain ⟨_, -, h⟩ := Exec.read_bind_eq_ok h
    cases h
    exact .of_flags trivial rfl rfl rfl rfl rfl rfl
  · obtain ⟨_, -, h⟩ := Exec.read_bind_eq_ok h
    obtain ⟨_, -, h⟩ := Exec.read_bind_eq_ok h
    cases h
    exact .of_flags trivial rfl rfl rfl rfl rfl rfl

/-- A decimal takes the register that its instruction names and the two behind it. -/
theorem framed_decimal {op : Arith} {d : Fin 14} (ht : m.regs.word Registers.r0a = 2)
    (hd : dest.toInt = (d.val : Int)) (t : Triple) :
    m.Framed (.arith op dest src) (m.apply (.decimal d t)) := by
  have hstores : m.regs.Stores d t (m.regs.putTriple d t) := Registers.stores_putTriple d t
  have hchanged : m.regs.changed (.arith op dest src) = [dest, dest + 1, dest + 2] := if_pos ht
  have h : m.Framed (.arith op dest src) m := .of_sameData rfl rfl ⟨rfl, rfl, rfl, rfl⟩
  refine ⟨fun j hj => hstores.word j ?_, fun _ => rfl, h.memory, h.cell, h.sp, h.output⟩
  rw [hchanged, Word.eq_ofNat_of_toInt_eq hd, List.mem_cons, List.mem_cons, List.mem_singleton] at hj
  have hne : ∀ k : Nat, j.val = d.val + k → Int64.ofNat j = Int64.ofNat d + Int64.ofNat k := by
    intro k hk
    rw [hk, Int64.ofNat_add]
  by_contra hout
  obtain hk | hk | hk : j.val = d.val ∨ j.val = d.val + 1 ∨ j.val = d.val + 2 := by omega
  · exact hj (.inl (congrArg _ hk))
  · exact hj (.inr (.inl (hne 1 hk)))
  · exact hj (.inr (.inr (hne 2 hk)))

theorem framed_arithmetic {op : Arith} (hdest : m.dest = dest)
    (h : Exec.act (.arith op dest src) m = (m', .ok ())) : m.Framed (.arith op dest src) m' := by
  change Exec.arithmetic op dest src m = _ at h
  unfold Exec.arithmetic at h
  rw [Exec.machine_bind] at h
  split at h
  · rename_i ht
    obtain ⟨⟨x, y⟩, -, h⟩ := Exec.read_bind_eq_ok h
    simp only at h
    split at h
    · cases h
    · obtain ⟨d, t, hd, rfl⟩ := Exec.storeNumber_eq_ok h
      rw [hdest] at hd
      exact framed_decimal (Registers.tagA_eq_float_iff.mp ht) hd t
  · rename_i ht
    obtain ⟨b, -, h⟩ := Exec.read_bind_eq_ok h
    split at h
    · cases h
    · obtain ⟨a, -, h⟩ := Exec.read_bind_eq_ok h
      have hchanged : m.regs.changed (.arith op dest src) = [dest] :=
        if_neg fun hw => ht (Registers.tagA_eq_float_iff.mpr hw)
      refine framed_setRegister ?_ rfl rfl h
      rw [hchanged]
      exact List.mem_singleton_self dest

theorem framed_print {text : String} (ht : m.regs.tagA ≠ some .string)
    (h : Exec.print text m = (m', .ok ())) : m.Framed .prnt m' := by
  obtain ⟨out, hout, rfl⟩ := Exec.print_eq_ok h
  have hmoved : m.moved .prnt = 0 := if_neg fun hw => ht (Registers.tagA_eq_string_iff.mpr hw)
  have h : m.Framed .prnt m := .of_sameData rfl hmoved ⟨rfl, rfl, rfl, rfl⟩
  exact ⟨h.registers, h.flags, h.memory, h.cell, h.sp, text, hout, fun hne => absurd rfl hne⟩

theorem framed_printDigits (hn : Word.Covers m.mem.size) (ht : m.regs.tagA = some .string)
    (h : Exec.printDigits m.regs.digitCount m = (m', .ok ())) : m.Framed .prnt m' := by
  obtain ⟨text, hpopped⟩ := Exec.printDigits_eq_ok hn h
  have htag := Registers.tagA_eq_string_iff.mp ht
  have hchanged : m.regs.changed .prnt = [Int64.ofNat Registers.r1a] := if_pos htag
  have hmoved : m.moved .prnt = m.regs.digitCount := if_pos htag
  constructor
  · intro j hj
    refine hpopped.word j fun hr1a => hj ?_
    rw [hchanged, hr1a]
    exact List.mem_singleton_self _
  · exact fun _ => hpopped.flags
  · exact fun _ => hpopped.mem
  · exact nofun
  · rw [hmoved]
    exact hpopped.sp
  · exact ⟨text, hpopped.output, fun hne => absurd rfl hne⟩

theorem framed_prnt (hn : Word.Covers m.mem.size) (h : Exec.act .prnt m = (m', .ok ())) :
    m.Framed .prnt m' := by
  by_cases hstring : m.regs.tagA = some .string
  · exact framed_printDigits hn hstring ((act_prnt_of_string hstring).symm.trans h)
  · change Exec.printValue m = _ at h
    unfold Exec.printValue at h
    rw [Exec.machine_bind] at h
    cases ht : m.regs.tagA with
    | none =>
      simp only [ht] at h
      cases h
      have hmoved : m.moved .prnt = 0 :=
        if_neg fun hw => hstring (Registers.tagA_eq_string_iff.mpr hw)
      exact .of_sameData rfl hmoved ⟨rfl, rfl, rfl, rfl⟩
    | some t =>
      simp only [ht] at h
      cases t with
      | string => exact absurd ht hstring
      | _ => exact framed_print hstring h

/-- An instruction that did not fail changed nothing else, also where its operands are one register,
the tag of a group, or an address on the stack or in the code. -/
theorem framed_act (hn : Word.Covers m.mem.size) (hi : i.operands <+: [m.dest, m.src])
    (h : Exec.act i m = (m', .ok ())) : m.Framed i m' := by
  cases i with
  | clf =>
    cases h
    exact .of_flags trivial rfl rfl rfl rfl rfl rfl
  | cmp d s => exact framed_compare h
  | cmpi d imm =>
    obtain ⟨_, -, h⟩ := Exec.read_bind_eq_ok h
    cases h
    exact .of_flags trivial rfl rfl rfl rfl rfl rfl
  | mov d s =>
    obtain ⟨_, -, h⟩ := Exec.read_bind_eq_ok h
    exact framed_setRegister (List.mem_singleton_self d) rfl rfl h
  | sti addr reg =>
    obtain ⟨_, hw, h⟩ := Exec.read_bind_eq_ok h
    obtain ⟨p, hlt, hp, rfl⟩ := Exec.store_eq_ok h
    exact .of_cell rfl (mapError_eq_ok_iff.mp hw) hp hlt rfl (Int.add_zero _).symm rfl rfl
  | ldi d addr =>
    obtain ⟨_, -, h⟩ := Exec.read_bind_eq_ok h
    exact framed_setRegister (List.mem_singleton_self d) rfl rfl h
  | lii d imm =>
    exact framed_setRegister (List.mem_singleton_self d) rfl rfl h
  | push reg =>
    obtain ⟨_, hw, h⟩ := Exec.read_bind_eq_ok h
    obtain ⟨hpos, p, hlt, hp, rfl⟩ := Exec.push_eq_ok h
    have hsp : (m.sp - 1).toInt = m.sp.toInt + -1 := Word.toInt_sub_one (Int.le_of_lt hpos)
    exact .of_cell rfl (mapError_eq_ok_iff.mp hw) hp hlt rfl hsp rfl rfl
  | pop reg =>
    obtain ⟨_, -, h⟩ := Exec.read_bind_eq_ok h
    obtain ⟨m₁, w, hpop, h⟩ := Exec.bind_eq_ok h
    obtain ⟨-, hlt, rfl⟩ := Exec.pop_eq_ok hpop
    obtain ⟨_, hd, rfl⟩ := Exec.setRegister_eq_ok h
    have hsp : (m.sp + 1).toInt = m.sp.toInt + 1 := Word.toInt_add_one hn hlt
    exact .of_register hd (List.mem_singleton_self reg) rfl rfl hsp rfl rfl
  | unary op d =>
    obtain ⟨_, -, h⟩ := Exec.read_bind_eq_ok h
    exact framed_setRegister (List.mem_singleton_self d) rfl rfl h
  | arith op d s =>
    obtain ⟨_, heq⟩ := hi
    exact framed_arithmetic (List.cons.inj heq).1.symm h
  | jump c target =>
    cases h
    exact .of_sameData rfl rfl ⟨rfl, rfl, rfl, rfl⟩
  | bitwise op d s =>
    obtain ⟨_, -, h⟩ := Exec.read_bind_eq_ok h
    obtain ⟨_, -, h⟩ := Exec.read_bind_eq_ok h
    exact framed_setRegister (List.mem_singleton_self d) rfl rfl h
  | prnt => exact framed_prnt hn h
  | hlt =>
    cases h
    exact .of_sameData rfl rfl ⟨rfl, rfl, rfl, rfl⟩

/-! ## Steps -/

/-- A step without a trace that did not fail changed nothing but what its instruction may change. A
step over a cell that is no opcode changed no data at all. -/
theorem step_frame {i : Option Instruction} (hn : Word.Covers m.mem.size)
    (hd : m.config.debug = false) (h : m.step = (m', .ok i)) :
    (∀ j, i = some j → m.Framed j m') ∧ (i = none → m.SameData m') := by
  constructor
  · rintro j rfl
    obtain ⟨inst, dest, src, m₁, out, hoperands, hact, hout, rfl⟩ := act_of_step_ok hn h
    have hframed := framed_act (m := m.fetched inst dest src) hn hoperands hact
    rw [hout hd]
    exact ⟨hframed.registers, hframed.flags, hframed.memory, hframed.cell, hframed.sp,
      hframed.output⟩
  · rintro rfl
    obtain ⟨m₁, m₂, out, hfetch, hexecute, hout, rfl⟩ := execute_of_step_ok h
    obtain ⟨p, inst, dest, src, -, -, rfl, -⟩ := fetch_eq_ok hfetch
    cases hexecute
    exact ⟨rfl, rfl, rfl, hout hd⟩

/-- `PUSH 3` over its own opcode cell. -/
theorem step_frame_push :
    let m : Machine := { new ⟨#[7, 3, 0]⟩ with
      sp := 1, regs := { r := #v[3, 0, 0, 9, 0, 0, 0, 0, 0, 0, 0, 0, 0, 0, 0, 0] } }
    ∃ m', m.step = (m', .ok (some (.push 3))) ∧ m.mem.Written 0 9 m'.mem ∧ m'.sp = 0 ∧
      (∀ j, m'.regs.word j = m.regs.word j) ∧ m'.out.text = "" := by
  intro m
  have hresult : m.step.2 = .ok (some (.push 3)) := by decide +kernel
  obtain ⟨m', hstep⟩ : ∃ m', m.step = (m', .ok (some (.push 3))) :=
    ⟨m.step.1, by rw [← hresult]⟩
  have hframed := (step_frame (by decide) rfl hstep).1 _ rfl
  obtain ⟨w, hw, hwritten⟩ := hframed.cell 0 3 (by decide)
  cases hw
  obtain ⟨text, htext, hempty⟩ := hframed.output
  rw [hempty nofun] at htext
  exact ⟨m', hstep, hwritten, Int64.toInt_inj.mp hframed.sp,
    fun j => hframed.registers j List.not_mem_nil, htext⟩

end Machine

end CellMachine
