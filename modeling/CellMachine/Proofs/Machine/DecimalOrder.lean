import CellMachine.Proofs.Decimal.Order
import CellMachine.Proofs.Machine.Decimals

/-!
# CellMachine.Proofs.Machine.DecimalOrder

Comparisons of decimals in registers.

* `Flags.Orders`              — the flags tell the order of two numbers.
* `Machine.decimals_compared` — `CMP` of two decimals tells the order of the exact values.
-/

namespace CellMachine

/-- The flags tell how `x` compares with `y`. -/
structure Flags.Orders (f : Flags) (x y : ℚ) : Prop where
  ltz : f.ltz = true ↔ x < y
  zero : f.zero = true ↔ x = y
  gtz : f.gtz = true ↔ y < x

theorem Flags.orders_ofOrdering (x y : ℚ) : (Flags.ofOrdering (compare x y)).Orders x y where
  ltz := beq_iff_eq.trans compare_lt_iff_lt
  zero := beq_iff_eq.trans compare_eq_iff_eq
  gtz := beq_iff_eq.trans compare_gt_iff_gt

namespace Machine

variable {m : Machine} {dest src : Word} {d s : Fin 14} {x y : Binary64}

/-- A comparison of numbers changes the flags and nothing else. -/
theorem act_cmp_of_float (ht : m.regs.tagA = some .float)
    (hx : m.regs.readDecimal m.dest = .ok x) (hy : m.regs.sourceNumber m.src = .ok y) :
    Exec.act (.cmp dest src) m = (m.apply (.flags (.ofNumbers x y)), .ok ()) := by
  show Exec.compare dest src m = _
  unfold Exec.compare
  rw [Exec.machine_bind, if_pos ht, Exec.read_bind_of_ok (numbers_of_ok hx hy)]
  rfl

/-- `CMP` of two decimals below `2 ^ 33`, which may be the same or overlap: of the three flags the
one of the order of their exact values is set, and no register changes. Two decimals are equal only
if they are so word by word. This is what the instruction does by itself once its operands have
been fetched, and what a step does. -/
theorem decimals_compared (hd : dest.toInt = (d.val : Int)) (hs : src.toInt = (s.val : Int))
    (hta : m.regs.word Registers.r0a = 2) (htb : m.regs.word Registers.r0b = 2)
    (hx : (m.regs.triple d).Canonical) (hy : (m.regs.triple s).Canonical)
    (hxlt : (m.regs.triple d).ipart.toInt.natAbs < 2 ^ 33)
    (hylt : (m.regs.triple s).ipart.toInt.natAbs < 2 ^ 33) :
    ((m.regs.triple d).exact = (m.regs.triple s).exact ↔ m.regs.triple d = m.regs.triple s) ∧
      (m.dest = dest → m.src = src →
        ∃ m', Exec.execute (.cmp dest src) m = (m', .ok ()) ∧ m'.regs.r = m.regs.r ∧
          m'.regs.flags.Orders (m.regs.triple d).exact (m.regs.triple s).exact) ∧
      (m.status = .running → Word.Covers m.mem.size → m.TakesTrace → m.Holds (.cmp dest src) →
        ∃ m', m.step = (m', .ok (some (.cmp dest src))) ∧ m'.regs.r = m.regs.r ∧
          m'.regs.flags.Orders (m.regs.triple d).exact (m.regs.triple s).exact) := by
  have htag := Registers.tagA_eq_float_iff.mpr hta
  have hfirst : m.regs.readDecimal dest = _ := Registers.readDecimal_of_toInt_eq hd
  have hsecond : m.regs.sourceNumber src = _ := Registers.sourceNumber_of_toInt_eq hs htb
  have horders : (Flags.ofNumbers (m.regs.triple d).toBinary64
      (m.regs.triple s).toBinary64).Orders (m.regs.triple d).exact (m.regs.triple s).exact := by
    rw [Flags.ofNumbers, hx.compare_toBinary64 hy hxlt hylt]
    exact Flags.orders_ofOrdering _ _
  refine ⟨hx.exact_eq_exact_iff hy, ?_, ?_⟩
  · rintro rfl rfl
    exact ⟨_, execute_of_act (act_cmp_of_float htag hfirst hsecond), rfl, horders⟩
  · intro hr hn hout h
    obtain ⟨inst, dest', src', hfetch, hoperands⟩ := h.fetch_latched hn
    obtain ⟨_, heq⟩ := hoperands
    cases heq
    have hact : Exec.act (.cmp dest src) (m.fetched inst dest src) = (_, .ok ()) :=
      act_cmp_of_float htag hfirst hsecond
    obtain ⟨out, hstep⟩ := step_of_execute hr hfetch (execute_of_act hact) hout
    exact ⟨_, hstep, rfl, horders⟩

/-- `CMP 1, 9` of two decimals that are a millionth apart, right below `2 ^ 33`. -/
theorem decimals_compared_millionth :
    let m : Machine := { new ⟨#[1, 1, 9]⟩ with
      regs := { r := #v[2, 8589934591, 999998, 0, 0, 0, 0, 0,
        2, 8589934591, 999999, 0, 0, 0, 0, 0] } }
    ∃ m', m.step = (m', .ok (some (.cmp 1 9))) ∧ m'.regs.flags.ltz = true := by
  intro m
  have hplaces : Triple.usedPlaces ⟨8589934591, 999998, 0⟩ = 6 ∧
      Triple.usedPlaces ⟨8589934591, 999999, 0⟩ = 6 := by
    simp [Triple.usedPlaces, digitCount]
  have hx : Triple.Canonical ⟨8589934591, 999998, 0⟩ :=
    ⟨by decide, by decide, by decide, fun _ => hplaces.1.le, by decide⟩
  have hy : Triple.Canonical ⟨8589934591, 999999, 0⟩ :=
    ⟨by decide, by decide, by decide, fun _ => hplaces.2.le, by decide⟩
  have hlt : Triple.exact ⟨8589934591, 999998, 0⟩ < Triple.exact ⟨8589934591, 999999, 0⟩ := by
    have hsigns : Triple.isNegative ⟨8589934591, 999998, 0⟩ = false ∧
        Triple.isNegative ⟨8589934591, 999999, 0⟩ = false := by decide
    have hwords : (8589934591 : Word).toInt.natAbs = 8589934591 ∧
        (999998 : Word).toInt.natAbs = 999998 ∧ (999999 : Word).toInt.natAbs = 999999 := by decide
    simp only [Triple.exact, hplaces, hsigns, hwords]
    norm_num
  have hholds : m.Holds (.cmp 1 9) := ⟨0, by decide, List.prefix_rfl⟩
  have hout : m.TakesTrace := fun hdebug => absurd hdebug Bool.false_ne_true
  have hdest : (1 : Word).toInt = ((1 : Fin 14).val : Int) := rfl
  have hsrc : (9 : Word).toInt = ((9 : Fin 14).val : Int) := rfl
  have hta : m.regs.word Registers.r0a = 2 := rfl
  have htb : m.regs.word Registers.r0b = 2 := rfl
  obtain ⟨-, -, hstep⟩ := decimals_compared hdest hsrc hta htb hx hy (by decide) (by decide)
  obtain ⟨m', hstep, -, horders⟩ := hstep rfl (by decide) hout hholds
  exact ⟨m', hstep, horders.ltz.mpr hlt⟩

end Machine

end CellMachine
