import CellMachine.Machine.Step
import CellMachine.Proofs.Instruction
import CellMachine.Proofs.Word

/-!
# CellMachine.Proofs.Machine.Cause

Why instructions and steps fail.

* `Instruction.Cause` — why an instruction fails on a machine, by the fault that says so.
* `Machine.Cause`     — why a step fails.
* `FailsFor`          — a result that is a fault exactly if there is a cause, and then of a cause.
-/

namespace CellMachine

/-! ## Causes -/

/-- Why a number has no triple: it is not finite, or its integer part, after rounding to six
places, is no word. -/
inductive Unencodable : Binary64 → DecimalError → Prop where
  | notFinite {x : Binary64} (h : x.isFinite = false) : Unencodable x (.notFinite x)
  | outOfRange {negative : Bool} {units : Nat} {hr : Representable units}
      {hu : units < overflowUnits}
      (h : Word.ofInt? (Binary64.signed negative
        (halfEven (units * 1000000) Binary64.unitsPerOne / 1000000)) = none) :
      Unencodable (.finite negative units hr hu) (.outOfRange (.finite negative units hr hu))

theorem TypeTag.ofWord?_eq_iff {w : Word} (i : Fin all.length) :
    ofWord? w = some (all.get i) ↔ w = Int64.ofNat i.val := by
  have hinj : ∀ i j : Fin all.length, all.get i = all.get j → i = j := by decide
  have hplace : ∀ i : Fin all.length, Word.place? (Int64.ofNat i) all.length = some i := by decide
  constructor
  · intro h
    obtain ⟨j, hj, hall⟩ := Option.map_eq_some_iff.mp h
    rw [← hinj j i hall]
    exact Word.eq_ofNat_of_toInt_eq (Word.place?_eq_some_iff.mp hj)
  · rintro rfl
    rw [ofWord?, hplace]
    rfl

theorem Registers.tagA_eq_float_iff {regs : Registers} :
    regs.tagA = some .float ↔ regs.word r0a = 2 := TypeTag.ofWord?_eq_iff ⟨2, by decide⟩

theorem Registers.tagA_eq_string_iff {regs : Registers} :
    regs.tagA = some .string ↔ regs.word r0a = 3 := TypeTag.ofWord?_eq_iff ⟨3, by decide⟩

theorem Registers.tagB_eq_float_iff {regs : Registers} :
    regs.tagB = some .float ↔ regs.word r0b = 2 := TypeTag.ofWord?_eq_iff ⟨2, by decide⟩

/-- The second number of an operation on decimals. -/
def Registers.sourceNumber (regs : Registers) (src : Word) : Except RegisterError Binary64 :=
  if regs.tagB = some .float then regs.readDecimal src
  else (regs.get src).map fun w => Binary64.ofInt w.toInt

/-- The first and the last register of the second number of an operation on decimals. -/
def Registers.sourceRegisters (regs : Registers) (src : Word) : List Word :=
  if regs.tagB = some .float then [src, src + 2] else [src]

/-- The registers that an instruction uses. A decimal is in three of them, of which the first and
the last are listed. -/
def Registers.used (regs : Registers) : Instruction → List Word
  | .clf | .jump _ _ | .prnt | .hlt => []
  | .cmp dest src | .arith _ dest src =>
    if regs.tagA = some .float then dest :: (dest + 2) :: regs.sourceRegisters src
    else [dest, src]
  | .mov dest src | .bitwise _ dest src => [dest, src]
  | .cmpi dest _ | .ldi dest _ | .lii dest _ | .push dest | .pop dest | .unary _ dest => [dest]
  | .sti _ src => [src]

/-- The address that an instruction reads or writes, the stack apart. -/
def Instruction.address? : Instruction → Option Word
  | .sti addr _ | .ldi _ addr => some addr
  | _ => none

def Registers.digitCount (regs : Registers) : Nat := (regs.word Registers.r1a).toInt.toNat

/-- Why an instruction at the next address of `m` fails. -/
inductive Instruction.Cause (m : Machine) : Instruction → Fault → Prop where
  | register {i : Instruction} {index : Word} (h : index ∈ m.regs.used i)
      (hx : ¬index.IsPlace 16) : Cause m i (.register ⟨index⟩)
  | address {i : Instruction} {addr : Word} (h : i.address? = some addr)
      (hx : ¬addr.IsPlace m.mem.size) :
      Cause m i (.memory (.addressOutOfRange addr m.mem.size))
  | overflow {reg : Word} (h : m.sp = 0) : Cause m (.push reg) (.stackOverflow 0)
  | underflow {reg : Word} (h : m.sp.toInt = m.mem.size) :
      Cause m (.pop reg) (.stackUnderflow m.sp)
  | zeroWord {op : Arith} {dest src : Word} (ht : m.regs.tagA ≠ some .float)
      (hop : op.divides = true) (h : m.regs.get src = .ok 0) :
      Cause m (.arith op dest src) (.divisionByZero m.next)
  | zeroNumber {op : Arith} {dest src : Word} {y : Binary64} (ht : m.regs.tagA = some .float)
      (hop : op.divides = true) (hy : m.regs.sourceNumber src = .ok y) (h : y.isZero = true) :
      Cause m (.arith op dest src) (.divisionByZero m.next)
  | decimal {op : Arith} {dest src : Word} {x y : Binary64} {e : DecimalError}
      (ht : m.regs.tagA = some .float) (hx : m.regs.readDecimal dest = .ok x)
      (hy : m.regs.sourceNumber src = .ok y) (h : Unencodable (op.onNumbers x y) e) :
      Cause m (.arith op dest src) (.decimal e)
  | pastEnd (ht : m.regs.tagA = some .string)
      (h : m.mem.size < m.sp.toInt.toNat + m.regs.digitCount) :
      Cause m .prnt (.stackUnderflow (Int64.ofNat m.mem.size))
  | digit {j : Nat} {w : Word} (ht : m.regs.tagA = some .string) (hj : j < m.regs.digitCount)
      (hw : m.mem.cells[m.sp.toInt.toNat + j]? = some w) (h : ¬w.IsPlace 10) :
      Cause m .prnt (.invalidDigit w)

/-- The cells at the next address start with those of `i`. -/
def Machine.Holds (m : Machine) (i : Instruction) : Prop :=
  ∃ p : Nat, m.next.toInt = p ∧ i.encode <+: m.mem.cells.toList.drop p

/-- Why a step of a machine fails. -/
inductive Machine.Cause (m : Machine) : Fault → Prop where
  /-- The next address is outside memory. -/
  | outside (h : ¬m.next.IsPlace m.mem.size) :
      Cause m (.memory (.addressOutOfRange m.next m.mem.size))
  /-- The next cell is no opcode. -/
  | unknown {p : Nat} {w : Word} (hp : m.next.toInt = p) (hw : m.mem.cells[p]? = some w)
      (h : ¬w.IsPlace 32) (hpolicy : m.config.unknownOpcode = .fault) :
      Cause m (.unknownOpcode w m.next)
  /-- The cells of the next instruction run past the end of memory. -/
  | truncated {p : Nat} {op : Opcode} (hp : m.next.toInt = p)
      (hw : m.mem.cells[p]? = some op.cell) (h : m.mem.size < p + op.width) :
      Cause m (.memory (.addressOutOfRange (Int64.ofNat m.mem.size) m.mem.size))
  | instruction {i : Instruction} {f : Fault} (hi : m.Holds i) (h : i.Cause m f) : Cause m f

/-! ## Computations that fail -/

/-- A result is a fault exactly if there is a cause, and then the fault of a cause. -/
structure FailsFor {α : Type} (r : Except Fault α) (C : Fault → Prop) : Prop where
  fault : ∀ f, r = .error f → C f
  fails : ∀ f, C f → ∃ g, r = .error g

namespace FailsFor

variable {α β : Type} {C D : Fault → Prop} {m : Machine}

theorem ok {a : α} (h : ∀ f, ¬C f) : FailsFor (.ok a) C where
  fault := by
    rintro _ ⟨⟩
  fails := fun f hf => absurd hf (h f)

theorem error {f : Fault} (h : C f) : FailsFor (.error f : Except Fault α) C where
  fault := by
    rintro _ ⟨⟩
    exact h
  fails := fun _ _ => ⟨f, rfl⟩

theorem congr {r : Except Fault α} (h : FailsFor r C) (hCD : ∀ f, C f ↔ D f) : FailsFor r D where
  fault := fun f hf => (hCD f).mp (h.fault f hf)
  fails := fun f hf => h.fails f ((hCD f).mpr hf)

/-- A sequence fails for the causes of its first part, and for those of the second part where the
first one gives a result. -/
theorem bind {x : Exec α} {g : α → Exec β} (hx : FailsFor (x m).2 C)
    (hg : ∀ m' a, x m = (m', .ok a) → FailsFor (g a m').2 D) :
    FailsFor ((x >>= g) m).2 fun f => C f ∨ D f := by
  rw [Exec.bind_apply]
  cases h : x m with
  | mk m' r =>
    rw [h] at hx
    cases r with
    | error e => exact .error (.inl (hx.fault e rfl))
    | ok a =>
      have hg := hg m' a h
      refine ⟨fun f hf => .inr (hg.fault f hf), ?_⟩
      rintro f (hf | hf)
      · obtain ⟨e, he⟩ := hx.fails f hf
        cases he
      · exact hg.fails f hf

/-- A second part that never fails adds no cause. -/
theorem bind_never {x : Exec α} {g : α → Exec β} (hx : FailsFor (x m).2 C)
    (hg : ∀ m' a, x m = (m', .ok a) → FailsFor (g a m').2 fun _ => False) :
    FailsFor ((x >>= g) m).2 C :=
  (bind hx hg).congr fun _ => or_iff_left id

theorem read_bind {r : Machine → Except Fault α} {g : α → Exec β} (hx : FailsFor (r m) C)
    (hg : ∀ a, r m = .ok a → FailsFor (g a m).2 D) :
    FailsFor ((Exec.read r >>= g) m).2 fun f => C f ∨ D f := by
  refine bind hx fun m' a h => ?_
  rw [Exec.read_apply, Prod.mk.injEq] at h
  obtain ⟨rfl, h⟩ := h
  exact hg a h

theorem bind_perform {x : Exec α} {e : α → Effect} (hx : FailsFor (x m).2 C) :
    FailsFor ((x >>= fun a => Exec.perform (e a)) m).2 C :=
  bind_never hx fun _ _ _ => ok fun _ => id

theorem map {r : Except Fault α} (h : FailsFor r C) (g : α → β) : FailsFor (r.map g) C := by
  cases r with
  | ok a =>
    refine ok fun f hf => ?_
    obtain ⟨e, he⟩ := h.fails f hf
    cases he
  | error e => exact error (h.fault e rfl)

theorem bind_except {x : Except Fault α} {g : α → Except Fault β} (hx : FailsFor x C)
    (hg : ∀ a, x = .ok a → FailsFor (g a) D) : FailsFor (x >>= g) fun f => C f ∨ D f := by
  cases x with
  | error e => exact error (.inl (hx.fault e rfl))
  | ok a =>
    have hg := hg a rfl
    refine ⟨fun f hf => .inr (hg.fault f hf), ?_⟩
    rintro f (hf | hf)
    · obtain ⟨e, he⟩ := hx.fails f hf
      cases he
    · exact hg.fails f hf

theorem bind_except_never {x : Except Fault α} {g : α → Except Fault β} (hx : FailsFor x C)
    (hg : ∀ a, x = .ok a → FailsFor (g a) fun _ => False) : FailsFor (x >>= g) C :=
  (bind_except hx hg).congr fun _ => or_iff_left id

end FailsFor

end CellMachine
