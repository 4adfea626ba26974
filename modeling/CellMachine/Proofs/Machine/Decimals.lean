import CellMachine.Proofs.Decimal.Sum
import CellMachine.Proofs.Machine.Execution

/-!
# CellMachine.Proofs.Machine.Decimals

Arithmetic on decimals in registers.

* `Registers.Stores`   — three registers are replaced by a triple, and no other.
* `Arith.exactSum?`    — addition and subtraction of rational numbers.
* `Machine.arithmetic_of_float`  — an operation whose result has a triple.
* `Machine.decimal_sum_stored`   — sums and differences of decimals are exact.
-/

namespace CellMachine

namespace Registers

variable {regs : Registers}

/-- `regs'` is `regs` with `t` in the three registers from `i` on. -/
structure Stores (regs : Registers) (i : Fin 14) (t : Triple) (regs' : Registers) : Prop where
  triple : regs'.triple i = t
  word : ∀ j : Fin 16, j.val < i.val ∨ i.val + 2 < j.val → regs'.word j = regs.word j
  flags : regs'.flags = regs.flags

theorem stores_putTriple (i : Fin 14) (t : Triple) : regs.Stores i t (regs.putTriple i t) where
  triple := by simp [putTriple, triple]
  word := by
    intro j hj
    have hne : i.val ≠ j.val ∧ i.val + 1 ≠ j.val ∧ i.val + 2 ≠ j.val := by omega
    simp [putTriple, Registers.word, hne]
  flags := rfl

theorem readDecimal_of_toInt_eq {base : Word} {i : Fin 14} (h : base.toInt = (i.val : Int)) :
    regs.readDecimal base = .ok (regs.triple i).toBinary64 := by
  rw [readDecimal, decimalSlot_eq_ok_iff.mpr h]
  rfl

theorem sourceNumber_of_toInt_eq {base : Word} {i : Fin 14} (h : base.toInt = (i.val : Int))
    (ht : regs.word r0b = 2) : regs.sourceNumber base = .ok (regs.triple i).toBinary64 := by
  rw [sourceNumber, if_pos (tagB_eq_float_iff.mpr ht)]
  exact readDecimal_of_toInt_eq h

end Registers

/-- The exact sum or difference of two numbers. -/
def Arith.exactSum? (op : Arith) (x y : ℚ) : Option ℚ :=
  match op with
  | .add => some (x + y)
  | .sub => some (x - y)
  | .mul | .div | .mod => none

namespace Machine

variable {m : Machine} {op : Arith} {dest src : Word} {d s : Fin 14} {t : Triple} {r : ℚ}

theorem numbers_of_ok {x y : Binary64} (hx : m.regs.readDecimal m.dest = .ok x)
    (hy : m.regs.sourceNumber m.src = .ok y) : m.numbers = .ok (x, y) := by
  rw [numbers_eq, hx, hy]
  rfl

/-- An operation on decimals that does not divide, and whose result has a triple. -/
theorem arithmetic_of_float {x y : Binary64} (ht : m.regs.tagA = some .float)
    (hx : m.regs.readDecimal m.dest = .ok x) (hy : m.regs.sourceNumber m.src = .ok y)
    (hd : m.dest.toInt = (d.val : Int)) (hop : op.divides = false)
    (hstore : Triple.ofBinary64 (op.onNumbers x y) = .ok t) :
    Exec.act (.arith op dest src) m = (m.apply (.decimal d t), .ok ()) := by
  have heffect : m.storeNumber (op.onNumbers x y) = .ok (.decimal d t) := by
    rw [storeNumber, hstore, Registers.decimalSlot_eq_ok_iff.mpr hd]
    rfl
  show Exec.arithmetic op dest src m = _
  unfold Exec.arithmetic
  rw [Exec.machine_bind, if_pos ht, Exec.read_bind_of_ok (numbers_of_ok hx hy)]
  simp only [hop, Bool.false_and, Bool.false_eq_true, if_false]
  exact Exec.read_bind_of_ok heffect _

/-- A result that has a triple is stored, by the operation alone and by a whole step. -/
theorem step_arithmetic_of_float {x y : Binary64} (hr : m.status = .running)
    (hn : Word.Covers m.mem.size) (hout : m.TakesTrace) (h : m.Holds (.arith op dest src))
    (ht : m.regs.tagA = some .float) (hx : m.regs.readDecimal dest = .ok x)
    (hy : m.regs.sourceNumber src = .ok y) (hd : dest.toInt = (d.val : Int))
    (hop : op.divides = false) (hstore : Triple.ofBinary64 (op.onNumbers x y) = .ok t) :
    ∃ m', m.step = (m', .ok (some (.arith op dest src))) ∧ m.regs.Stores d t m'.regs := by
  obtain ⟨inst, dest', src', hfetch, hoperands⟩ := h.fetch_latched hn
  obtain ⟨_, heq⟩ := hoperands
  cases heq
  have hact : Exec.act (.arith op dest src) (m.fetched inst dest src) = (_, .ok ()) :=
    arithmetic_of_float ht hx hy hd hop hstore
  obtain ⟨out, hstep⟩ := step_of_execute hr hfetch (execute_of_act hact) hout
  exact ⟨_, hstep, Registers.stores_putTriple d t⟩

/-- `ADD` and `SUB` of two decimals below `2 ^ 31`, which may be the same or overlap: the canonical
triple of the exact sum or difference takes the place of the first one, and no other register
changes. This is what the instruction does by itself once its operands have been fetched, and what
a step does. -/
theorem decimal_sum_stored (hd : dest.toInt = (d.val : Int)) (hs : src.toInt = (s.val : Int))
    (hta : m.regs.word Registers.r0a = 2) (htb : m.regs.word Registers.r0b = 2)
    (hx : (m.regs.triple d).Canonical) (hy : (m.regs.triple s).Canonical)
    (hxlt : (m.regs.triple d).ipart.toInt.natAbs < 2 ^ 31)
    (hylt : (m.regs.triple s).ipart.toInt.natAbs < 2 ^ 31)
    (hop : op.exactSum? (m.regs.triple d).exact (m.regs.triple s).exact = some r) :
    ∃ t : Triple, t.Canonical ∧ t.exact = r ∧ (∀ u : Triple, u.Canonical → u.exact = r → u = t) ∧
      (m.dest = dest → m.src = src →
        ∃ m', Exec.execute (.arith op dest src) m = (m', .ok ()) ∧ m.regs.Stores d t m'.regs) ∧
      (m.status = .running → Word.Covers m.mem.size → m.TakesTrace →
        m.Holds (.arith op dest src) →
        ∃ m', m.step = (m', .ok (some (.arith op dest src))) ∧ m.regs.Stores d t m'.regs) := by
  obtain ⟨hdivides, t, hstore, hcanonical, hexact⟩ : op.divides = false ∧ ∃ t,
      Triple.ofBinary64 (op.onNumbers (m.regs.triple d).toBinary64
        (m.regs.triple s).toBinary64) = .ok t ∧ t.Canonical ∧ t.exact = r := by
    cases op with
    | add =>
      cases hop
      exact ⟨rfl, hx.ofBinary64_add hy hxlt hylt⟩
    | sub =>
      cases hop
      exact ⟨rfl, hx.ofBinary64_sub hy hxlt hylt⟩
    | mul => cases hop
    | div => cases hop
    | mod => cases hop
  have htag := Registers.tagA_eq_float_iff.mpr hta
  have hfirst : m.regs.readDecimal dest = _ := Registers.readDecimal_of_toInt_eq hd
  have hsecond : m.regs.sourceNumber src = _ := Registers.sourceNumber_of_toInt_eq hs htb
  refine ⟨t, hcanonical, hexact, fun u hu hur => hu.eq_of_exact_eq hcanonical
    (hur.trans hexact.symm), ?_, ?_⟩
  · rintro rfl rfl
    exact ⟨_, execute_of_act (arithmetic_of_float htag hfirst hsecond hd hdivides hstore),
      Registers.stores_putTriple d t⟩
  · intro hr hn hout h
    exact step_arithmetic_of_float hr hn hout h htag hfirst hsecond hd hdivides hstore

/-- `SUB 1, 2` of overlapping decimals: `1.005` in the registers from 1 on, and `5.2` in those from
2 on. -/
theorem decimal_sum_stored_overlap :
    let m : Machine := { new ⟨#[12, 1, 2]⟩ with
      regs := { r := #v[2, 1, 5, 2, 0, 0, 0, 0, 2, 0, 0, 0, 0, 0, 0, 0] } }
    ∃ m', m.step = (m', .ok (some (.arith .sub 1 2))) ∧ m.regs.Stores 1 ⟨-4, 195, 0⟩ m'.regs := by
  intro m
  have hplaces : Triple.usedPlaces ⟨1, 5, 2⟩ = 3 ∧ Triple.usedPlaces ⟨5, 2, 0⟩ = 1 ∧
      Triple.usedPlaces ⟨-4, 195, 0⟩ = 3 := by
    simp [Triple.usedPlaces, digitCount]
  have hx : Triple.Canonical ⟨1, 5, 2⟩ :=
    ⟨by decide, by decide, by decide, fun _ => hplaces.1.trans_le (by norm_num), by decide⟩
  have hy : Triple.Canonical ⟨5, 2, 0⟩ :=
    ⟨by decide, by decide, by decide, fun _ => hplaces.2.1.trans_le (by norm_num), by decide⟩
  have hz : Triple.Canonical ⟨-4, 195, 0⟩ :=
    ⟨by decide, by decide, by decide, fun _ => hplaces.2.2.trans_le (by norm_num), by decide⟩
  have hvalue : Triple.exact ⟨-4, 195, 0⟩ = Triple.exact ⟨1, 5, 2⟩ - Triple.exact ⟨5, 2, 0⟩ := by
    have hsigns : Triple.isNegative ⟨1, 5, 2⟩ = false ∧ Triple.isNegative ⟨5, 2, 0⟩ = false ∧
        Triple.isNegative ⟨-4, 195, 0⟩ = true := by decide
    have hwords : (1 : Word).toInt.natAbs = 1 ∧ (2 : Word).toInt.natAbs = 2 ∧
        (5 : Word).toInt.natAbs = 5 ∧ (-4 : Word).toInt.natAbs = 4 ∧
        (195 : Word).toInt.natAbs = 195 := by decide
    simp only [Triple.exact, hplaces, hsigns, hwords]
    norm_num
  have hholds : m.Holds (.arith .sub 1 2) := ⟨0, by decide, List.prefix_rfl⟩
  have hout : m.TakesTrace := fun hdebug => absurd hdebug Bool.false_ne_true
  have hd : (1 : Word).toInt = ((1 : Fin 14).val : Int) := rfl
  have hs : (2 : Word).toInt = ((2 : Fin 14).val : Int) := rfl
  have hop : Arith.sub.exactSum? (m.regs.triple 1).exact (m.regs.triple 2).exact =
      some (Triple.exact ⟨1, 5, 2⟩ - Triple.exact ⟨5, 2, 0⟩) := rfl
  obtain ⟨t, -, -, hunique, -, hstep⟩ :=
    decimal_sum_stored (m := m) hd hs rfl rfl hx hy (by decide) (by decide) hop
  rw [hunique _ hz hvalue]
  exact hstep rfl (by decide) hout hholds

end Machine

end CellMachine
