import CellMachine.Listing
import CellMachine.Proofs.Machine.Execution

/-!
# CellMachine.Proofs.Machine.Latches

The cells that a fetch keeps beside the instruction that it decodes. Operations on decimals find
their registers in those cells, and all else finds them in the instruction.

* `Exec.latched_of_fetch`    — the cells kept start with those of the instruction.
* `Registers.onNumbers`      — an operation on decimals, on the registers that the instruction names.
* `Machine.act_of_latched`   — the instruction does what this operation does.
* `Machine.latches_operands` — both, for a fetch at any address and for a step.
-/

namespace CellMachine

/-- An instruction that works on decimals if the destination group is tagged so: on those that
start in the registers `dest` and `src`. -/
inductive Instruction.Typed : Instruction → Word → Word → Prop where
  | cmp (dest src : Word) : Typed (.cmp dest src) dest src
  | arith (op : Arith) (dest src : Word) : Typed (.arith op dest src) dest src

/-- A typed instruction is printed with its two registers. -/
theorem Instruction.Typed.text_eq {i : Instruction} {dest src : Word} (h : i.Typed dest src) :
    i.text = i.opcode.mnemonic ++ " " ++
      (OperandKind.register.text dest ++ ", " ++ OperandKind.register.text src) := by
  cases h with
  | cmp => rfl
  | arith => rfl

namespace Registers

variable {regs : Registers} {addr dest src : Word} {i : Instruction}

/-- The numbers that start in the registers `dest` and `src`; the second one may be an integer. -/
def numbers (regs : Registers) (dest src : Word) : Except Fault (Binary64 × Binary64) := do
  let x ← (regs.readDecimal dest).mapError .register
  let y ← (regs.sourceNumber src).mapError .register
  return (x, y)

/-- The registers with a number in those that start at `dest`. -/
def storeNumber (regs : Registers) (dest : Word) (x : Binary64) : Except Fault Registers := do
  let t ← (Triple.ofBinary64 x).mapError .decimal
  (regs.writeDecimal dest t).mapError .register

/-- The registers after an instruction at `addr`, where those that it names hold decimals. -/
def onNumbers (regs : Registers) (addr : Word) : Instruction → Except Fault Registers
  | .cmp dest src => (regs.numbers dest src).map fun (x, y) =>
    { regs with flags := .ofNumbers x y }
  | .arith op dest src => do
    let (x, y) ← regs.numbers dest src
    if op.divides && y.isZero then throw (.divisionByZero addr)
    else regs.storeNumber dest (op.onNumbers x y)
  | _ => return regs

end Registers

/-! ## Fetching -/

namespace Exec

variable {m m₁ : Machine} {i : Instruction}

theorem read_bind_of_error {α β : Type} {r : Machine → Except Fault α} {e : Fault}
    (h : r m = .error e) (f : α → Exec β) : (read r >>= f) m = (m, .error e) :=
  bind_of_error (congrArg (Prod.mk m) h) f

/-- A fetch inside memory keeps the opcode cell too. -/
theorem latched_of_advance (hn : Word.Covers m.mem.size)
    (h : fetch m.advance = (m₁, .ok (some i))) :
    i.encode <+: [m₁.inst, m₁.dest, m₁.src] ∧ m₁.regs = m.regs ∧ m₁.pc = m.next := by
  obtain ⟨p, hp, hcells⟩ := holds_of_fetch h
  have hlt := Machine.lt_size_of_isPrefix hcells
  obtain ⟨hm, -⟩ := Prod.mk.inj ((fetch_of_lt hp hlt).symm.trans h)
  have hcell : i.opcode.cell = m.mem.cells[p] := by
    have hhead := List.prefix_iff_getElem?.mp hcells 0 (Nat.succ_pos _)
    rw [List.getElem?_drop, Array.getElem?_toList, Nat.add_zero,
      Array.getElem?_eq_getElem hlt] at hhead
    exact (Option.some.inj hhead).symm
  rw [← hm]
  refine ⟨?_, rfl, rfl⟩
  show i.opcode.cell :: i.operands <+: m.mem.cells[p] :: _
  rw [hcell, List.prefix_cons_inj]
  exact operands_of_isPrefix hn hp hcells

/-- Every machine is about to fetch, as if another had moved on to its address. -/
theorem latched_of_fetch (hn : Word.Covers m.mem.size) (h : fetch m = (m₁, .ok (some i))) :
    i.encode <+: [m₁.inst, m₁.dest, m₁.src] ∧ m₁.regs = m.regs ∧ m₁.pc = m.pc := by
  have hnext : m.pc - 1 + 1 = m.pc := Int64.sub_add_cancel _ _
  have hadvance : ({ m with pc := m.pc - 1 } : Machine).advance = m := by
    show { m with pc := m.pc - 1 + 1 } = m
    rw [hnext]
  rw [← hadvance] at h
  obtain ⟨hcells, hregs, hpc⟩ :=
    latched_of_advance (m := { m with pc := m.pc - 1 }) hn h
  exact ⟨hcells, hregs, hpc.trans hnext⟩

end Exec

/-! ## Operations on decimals -/

namespace Machine

variable {m : Machine} {i : Instruction} {dest src : Word}

theorem typed_of_latched (h : i.Typed dest src) (hi : i.encode <+: [m.inst, m.dest, m.src]) :
    m.dest = dest ∧ m.src = src := by
  obtain ⟨-, rest, heq⟩ := List.cons_prefix_cons.mp hi
  cases h with
  | cmp =>
    cases heq
    exact ⟨rfl, rfl⟩
  | arith =>
    cases heq
    exact ⟨rfl, rfl⟩

/-- The result of a computation of the registers is what the machine holds afterwards, if there is
one. -/
def withRegisters (m : Machine) (r : Except Fault Registers) : Machine × Except Fault Unit :=
  ({ m with regs := r.toOption.getD m.regs }, r.map fun _ => ())

theorem storeNumber_latched (x : Binary64) :
    Exec.storeNumber x m = m.withRegisters (m.regs.storeNumber m.dest x) := by
  unfold Exec.storeNumber Registers.storeNumber
  -- The number is encoded first, and the register is looked up only then.
  cases ht : (Triple.ofBinary64 x).mapError Fault.decimal with
  | error f =>
    refine Exec.read_bind_of_error (e := f) ?_ _
    rw [storeNumber, ht]
    rfl
  | ok t =>
    cases hi : (Registers.decimalSlot m.dest).mapError Fault.register with
    | error f =>
      have hwrite : (m.regs.writeDecimal m.dest t).mapError Fault.register = .error f := by
        rw [Registers.writeDecimal, mapError_map, hi]
        rfl
      refine (Exec.read_bind_of_error (e := f) ?_ _).trans ?_
      · rw [storeNumber, ht, hi]
        rfl
      · show _ = m.withRegisters ((m.regs.writeDecimal m.dest t).mapError Fault.register)
        rw [hwrite]
        rfl
    | ok k =>
      have hwrite : (m.regs.writeDecimal m.dest t).mapError Fault.register =
          .ok (m.regs.putTriple k t) := by
        rw [Registers.writeDecimal, mapError_map, hi]
        rfl
      refine (Exec.read_bind_of_ok (a := .decimal k t) ?_ _).trans ?_
      · rw [storeNumber, ht, hi]
        rfl
      · show _ = m.withRegisters ((m.regs.writeDecimal m.dest t).mapError Fault.register)
        rw [hwrite]
        rfl

/-- With the operands of an instruction kept, the instruction works on the registers it names. -/
theorem act_of_latched (h : i.Typed dest src) (hd : m.dest = dest) (hs : m.src = src)
    (ht : m.regs.tagA = some .float) :
    Exec.act i m = m.withRegisters (m.regs.onNumbers m.pc i) := by
  have hnumbers : m.numbers = m.regs.numbers dest src := by
    rw [numbers_eq, hd, hs]
    rfl
  cases h with
  | cmp =>
    show Exec.compare dest src m = m.withRegisters ((m.regs.numbers dest src).map _)
    rw [← hnumbers]
    unfold Exec.compare
    rw [Exec.machine_bind, if_pos ht]
    cases hxy : m.numbers with
    | error f => exact Exec.read_bind_of_error hxy _
    | ok xy => exact Exec.read_bind_of_ok hxy _
  | arith op =>
    show Exec.arithmetic op dest src m = m.withRegisters (m.regs.numbers dest src >>= _)
    rw [← hnumbers]
    unfold Exec.arithmetic
    rw [Exec.machine_bind, if_pos ht]
    cases hxy : m.numbers with
    | error f => exact Exec.read_bind_of_error hxy _
    | ok xy =>
      refine (Exec.read_bind_of_ok hxy _).trans ?_
      simp only [bind, Except.bind]
      split
      · rfl
      · rw [storeNumber_latched, hd]

theorem execute_of_latched (h : i.Typed dest src) (hd : m.dest = dest) (hs : m.src = src)
    (ht : m.regs.tagA = some .float) :
    ∃ m', Exec.execute i m = (m', (m.regs.onNumbers m.pc i).map fun _ => ()) ∧
      m'.regs = (m.regs.onNumbers m.pc i).toOption.getD m.regs := by
  have hact := act_of_latched h hd hs ht
  cases hr : m.regs.onNumbers m.pc i with
  | error f =>
    rw [hr] at hact
    exact ⟨_, Exec.bind_of_error hact _, rfl⟩
  | ok regs =>
    rw [hr] at hact
    exact ⟨_, execute_of_act hact, rfl⟩

/-- Wherever an instruction is fetched, its cells are the first ones of those that are kept. So
comparisons and arithmetic of decimals work on the registers that the instruction names, whether
they fail or not: on those of the instruction that a step gives back, and that is printed. -/
theorem latches_operands (hn : Word.Covers m.mem.size) :
    (∀ (m₁ : Machine) (i : Instruction), Exec.fetch m = (m₁, .ok (some i)) →
      i.encode <+: [m₁.inst, m₁.dest, m₁.src] ∧
        ∀ dest src, i.Typed dest src → m.regs.tagA = some .float →
          ∃ m₂, Exec.execute i m₁ = (m₂, (m.regs.onNumbers m.pc i).map fun _ => ()) ∧
            m₂.regs = (m.regs.onNumbers m.pc i).toOption.getD m.regs) ∧
    ∀ (m' : Machine) (i : Instruction) (dest src : Word), m.step = (m', .ok (some i)) →
      i.Typed dest src → m.regs.tagA = some .float →
        m.regs.onNumbers m.next i = .ok m'.regs ∧
          i.text = i.opcode.mnemonic ++ " " ++
            (OperandKind.register.text dest ++ ", " ++ OperandKind.register.text src) := by
  refine ⟨?_, ?_⟩
  · intro m₁ i hfetch
    obtain ⟨hcells, hregs, hpc⟩ := Exec.latched_of_fetch hn hfetch
    refine ⟨hcells, fun dest src htyped ht => ?_⟩
    obtain ⟨hd, hs⟩ := typed_of_latched htyped hcells
    rw [← hregs, ← hpc]
    exact execute_of_latched htyped hd hs (hregs ▸ ht)
  · intro m' i dest src hstep htyped ht
    obtain ⟨m₁, m₂, out, hfetch, hexecute, -, rfl⟩ := execute_of_step_ok hstep
    obtain ⟨hcells, hregs, hpc⟩ := Exec.latched_of_advance hn hfetch
    obtain ⟨hd, hs⟩ := typed_of_latched htyped hcells
    obtain ⟨m₃, hexecute', hresult⟩ := execute_of_latched htyped hd hs (hregs ▸ ht)
    rw [hregs, hpc] at hexecute' hresult
    obtain ⟨rfl, hok⟩ := Prod.mk.inj (hexecute.symm.trans hexecute')
    obtain ⟨regs, hr, -⟩ := map_eq_ok_iff.mp hok.symm
    refine ⟨?_, htyped.text_eq⟩
    rw [hr] at hresult ⊢
    exact congrArg Except.ok hresult.symm

/-- `ADD 1, 4` of `1.5` and `2.25` in the last three cells of memory. -/
theorem latches_operands_last_cells :
    let m : Machine := { new ⟨#[31, 11, 1, 4]⟩ with
      pc := 0, regs := { r := #v[2, 1, 5, 0, 2, 25, 0, 0, 2, 0, 0, 0, 0, 0, 0, 0] } }
    Word.Covers m.mem.size ∧ ∃ m', m.step = (m', .ok (some (.arith .add 1 4))) ∧
      m.regs.onNumbers m.next (.arith .add 1 4) = .ok m'.regs ∧ m'.regs.triple 1 = ⟨3, 75, 0⟩ := by
  intro m
  have hn : Word.Covers m.mem.size := by decide
  have hresult : m.step.2 = .ok (some (.arith .add 1 4)) := by decide +kernel
  have hsum : m.step.1.regs.triple 1 = ⟨3, 75, 0⟩ := by decide +kernel
  have hfloat : m.regs.tagA = some .float := by decide
  have hstep : m.step = (m.step.1, .ok (some (.arith .add 1 4))) := by rw [← hresult]
  have hlatched := (latches_operands hn).2 _ _ 1 4 hstep (.arith .add 1 4) hfloat
  exact ⟨hn, _, hstep, hlatched.1, hsum⟩

end Machine

end CellMachine
