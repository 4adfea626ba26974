import CellMachine.Proofs.Machine.Atomicity

/-!
# CellMachine.Proofs.Machine.Execution

Steps that carry out the instruction at the next address.

* `Machine.holds_of_get?`   — memory holds an instruction if each of its cells is in place.
* `Machine.step_of_execute` — a step that carries out what it fetched, over a sink that takes the
  trace.
* `Machine.step_of_fetch`   — a step without a trace, whether it fails or not.
* `Machine.execute_of_step_ok`, `Machine.act_of_step_ok` — what a step has done that did not fail.
* `Condition.HoldsOn`       — when a jump is taken.
* `Machine.step_jump`       — the step of a jump.
-/

namespace CellMachine

/-- A word that is moved forward and not behind the largest one. -/
theorem Word.toInt_add_ofNat {w : Word} {k : Nat} (hk : Covers k) (hw : 0 ≤ w.toInt)
    (h : 0 ≤ (w + Int64.ofNat k).toInt) : (w + Int64.ofNat k).toInt = w.toInt + k := by
  have hlt := w.toInt_lt
  have hcovers := hk
  rw [Covers, Int64.toInt_maxValue] at hcovers
  rw [Int64.toInt_add, toInt_ofNat hk, Int.bmod_def] at h ⊢
  split at h
  · omega
  · omega

/-- The trace at the end of an attempt. -/
def Exec.finish (i : Option Instruction) : Exec (Option Instruction) := do
  let m ← machine
  if m.config.debug then trace
  return i

namespace Machine

theorem holds_of_get? {m : Machine} {i : Instruction}
    (h : ∀ k (hk : k < i.encode.length),
      m.mem.get? (m.next + Int64.ofNat k) = some i.encode[k]) : m.Holds i := by
  have hplace : ∀ k (hk : k < i.encode.length), ∃ j : Fin m.mem.size,
      (m.next + Int64.ofNat k).toInt = (j.val : Int) ∧ m.mem.cells[j] = i.encode[k] := by
    intro k hk
    obtain ⟨j, hj, hcell⟩ := Option.map_eq_some_iff.mp (h k hk)
    exact ⟨j, Word.place?_eq_some_iff.mp hj, hcell⟩
  obtain ⟨p, hp, -⟩ := hplace 0 (Nat.succ_pos _)
  have hp : m.next.toInt = (p.val : Int) := by
    rw [← hp, show Int64.ofNat 0 = 0 from rfl, Int64.add_zero]
  refine ⟨p.val, hp, List.prefix_iff_getElem?.mpr fun k hk => ?_⟩
  obtain ⟨j, hj, hcell⟩ := hplace k hk
  have hcovers : Word.Covers k := by
    have hwidth := i.opcode.width_le_three
    rw [Instruction.length_encode, Instruction.width] at hk
    rw [Word.Covers, Int64.toInt_maxValue]
    omega
  have hsum := Word.toInt_add_ofNat (w := m.next) hcovers (by omega) (by omega)
  have hposition : p.val + k = j.val := by omega
  rw [List.getElem?_drop, Array.getElem?_toList, hposition, ← hcell]
  exact Array.getElem?_eq_getElem j.isLt

theorem lt_size_of_isPrefix {m : Machine} {i : Instruction} {p : Nat}
    (h : i.encode <+: m.mem.cells.toList.drop p) : p < m.mem.size := by
  have hlen := h.length_le
  rw [List.length_drop, Instruction.length_encode] at hlen
  have hpos := i.opcode.width_pos
  rw [Instruction.width] at hlen
  rw [Memory.size, ← Array.length_toList]
  omega

/-- The instruction at the next address is what is fetched. -/
theorem Holds.fetch {m : Machine} {i : Instruction} (h : m.Holds i) :
    ∃ inst dest src, Exec.fetch m.advance = (m.fetched inst dest src, .ok (some i)) := by
  obtain ⟨p, hp, hprefix⟩ := h
  have hfetch := fetch_of_lt hp (lt_size_of_isPrefix hprefix)
  simp only [Exec.decoded, Instruction.decode_of_prefix hprefix] at hfetch
  exact ⟨_, _, _, hfetch⟩

/-- A fetch keeps the operands of the instruction at the next address. -/
theorem Holds.fetch_latched {m : Machine} {i : Instruction} (hn : Word.Covers m.mem.size)
    (h : m.Holds i) :
    ∃ inst dest src, Exec.fetch m.advance = (m.fetched inst dest src, .ok (some i)) ∧
      i.operands <+: [dest, src] := by
  obtain ⟨p, hp, hprefix⟩ := h
  obtain ⟨inst, dest, src, hfetch, hoperands⟩ :=
    fetch_of_isPlace hn hp (lt_size_of_isPrefix hprefix)
  simp only [Exec.decoded, Instruction.decode_of_prefix hprefix] at hfetch
  exact ⟨inst, dest, src, hfetch, hoperands i hprefix⟩

/-- The sink takes the trace, if there is one. -/
def TakesTrace (m : Machine) : Prop := m.config.debug = true → m.out.Accepts

theorem execute_of_act {m m' : Machine} {i : Instruction} (h : Exec.act i m = (m', .ok ())) :
    Exec.execute i m = (m'.apply (.jump (m'.pcAfter i)), .ok ()) :=
  Exec.bind_of_ok h _

/-- A trace that is taken adds to the output and changes nothing else. -/
theorem finish_of_takesTrace {m : Machine} (h : m.TakesTrace) (i : Option Instruction) :
    ∃ out, Exec.finish i m = (m.apply (.output out), .ok i) := by
  unfold Exec.finish
  rw [Exec.machine_bind]
  split
  · rename_i hdebug
    obtain ⟨out, -, hprint⟩ := print_of_accepts (h hdebug) (m.regs.line ++ "\n")
    exact ⟨out, Exec.bind_of_ok (x := Exec.trace) hprint _⟩
  · exact ⟨m.out, rfl⟩

theorem attempt_of_execute {m m₁ m₂ : Machine} {i : Instruction}
    (hfetch : Exec.fetch m = (m₁, .ok (some i))) (hexecute : Exec.execute i m₁ = (m₂, .ok ()))
    (hout : m₂.TakesTrace) :
    ∃ out, Exec.attempt m = (m₂.apply (.output out), .ok (some i)) := by
  unfold Exec.attempt
  rw [Exec.bind_of_ok hfetch, show (some i).elim (return) Exec.execute = Exec.execute i from rfl,
    Exec.bind_of_ok hexecute]
  exact finish_of_takesTrace hout (some i)

theorem step_of_execute {m m₁ m₂ : Machine} {i : Instruction} (hr : m.status = .running)
    (hfetch : Exec.fetch m.advance = (m₁, .ok (some i)))
    (hexecute : Exec.execute i m₁ = (m₂, .ok ())) (hout : m₂.TakesTrace) :
    ∃ out, m.step = ((m₂.apply (.output out)).completed (some i), .ok (some i)) := by
  obtain ⟨out, hattempt⟩ := attempt_of_execute hfetch hexecute hout
  exact ⟨out, step_of_ok hr hattempt⟩

/-- The machines agree in what instructions work on: registers, stack pointer, memory and output. -/
def SameData (m n : Machine) : Prop :=
  n.regs = m.regs ∧ n.sp = m.sp ∧ n.mem = m.mem ∧ n.out = m.out

/-- Without a trace, a step leaves what the instruction has left that was fetched, whether it fails
or not. -/
theorem step_of_fetch {m m₁ m₂ : Machine} {i : Instruction} {r : Except Fault Unit}
    (hr : m.status = .running) (hfetch : Exec.fetch m.advance = (m₁, .ok (some i)))
    (hd : m₁.config.debug = false) (hexecute : Exec.execute i m₁ = (m₂, r)) :
    ∃ m', m.step = (m', r.map fun _ => some i) ∧ m₂.SameData m' := by
  have hattempt := attempt_of_fetch_some hfetch hd
  rw [hexecute] at hattempt
  cases r with
  | ok _ => exact ⟨_, step_of_ok hr hattempt, rfl, rfl, rfl, rfl⟩
  | error f => exact ⟨_, step_of_error hr hattempt, rfl, rfl, rfl, rfl⟩

/-- A step that did not fail has fetched at the next address and carried out what it fetched; after
it, it may have traced. -/
theorem execute_of_step_ok {m m' : Machine} {i : Option Instruction} (h : m.step = (m', .ok i)) :
    ∃ m₁ m₂ out, Exec.fetch m.advance = (m₁, .ok i) ∧
      i.elim (return) Exec.execute m₁ = (m₂, .ok ()) ∧
      (m₂.config.debug = false → out = m₂.out) ∧ m' = (m₂.apply (.output out)).completed i := by
  obtain ⟨-, m₃, hattempt, rfl⟩ := attempt_of_step_ok h
  obtain ⟨m₁, j, hfetch, hattempt⟩ := Exec.bind_eq_ok hattempt
  obtain ⟨m₂, _, hexecute, hattempt⟩ := Exec.bind_eq_ok hattempt
  rw [Exec.machine_bind] at hattempt
  split at hattempt
  · rename_i hdebug
    obtain ⟨m₄, _, htrace, hattempt⟩ := Exec.bind_eq_ok hattempt
    cases hattempt
    refine ⟨m₁, m₂, _, hfetch, hexecute, fun hd => ?_,
      congrArg (·.completed i) (congrArg Prod.fst htrace).symm⟩
    rw [hd] at hdebug
    cases hdebug
  · cases hattempt
    exact ⟨m₁, m₃, m₃.out, hfetch, hexecute, fun _ => rfl, rfl⟩

/-- A step that did not fail has carried out the instruction at the next address; after it, it moved
the program counter and may have traced. -/
theorem act_of_step_ok {m m' : Machine} {i : Instruction} (hn : Word.Covers m.mem.size)
    (h : m.step = (m', .ok (some i))) :
    ∃ inst dest src m₁ out, i.operands <+: [dest, src] ∧
      Exec.act i (m.fetched inst dest src) = (m₁, .ok ()) ∧
      (m.config.debug = false → out = m₁.out) ∧
      m' = ((m₁.apply (.jump (m₁.pcAfter i))).apply (.output out)).completed (some i) := by
  obtain ⟨m₀, m₂, out, hfetch, hexecute, hout, rfl⟩ := execute_of_step_ok h
  obtain ⟨inst, dest, src, hlatched, hoperands⟩ := (Exec.holds_of_fetch hfetch).fetch_latched hn
  rw [hfetch] at hlatched
  cases hlatched
  have hconfig : m₂.config = m.config :=
    (congrArg (·.1.config) hexecute).symm.trans (config_execute i _)
  obtain ⟨m₁, _, hact, hjump⟩ := Exec.bind_eq_ok hexecute
  cases hjump
  exact ⟨inst, dest, src, m₁, out, hoperands, hact, fun hd => hout (hconfig ▸ hd), rfl⟩

end Machine

/-! ## Jumps -/

/-- The flags with which a jump is taken. -/
def Condition.HoldsOn (f : Flags) : Condition → Prop
  | .less => f.ltz = true
  | .greater => f.gtz = true
  | .equal => f.zero = true
  | .unequal => f.zero = false
  | .always => True

namespace Machine

theorem jumps_iff {m : Machine} {c : Condition} :
    m.jumps c = true ↔ c.HoldsOn m.regs.flags := by
  cases c with
  | less => exact Iff.rfl
  | greater => exact Iff.rfl
  | equal => exact Iff.rfl
  | unequal => exact iff_of_eq (Bool.not_eq_true' _)
  | always => exact ⟨fun _ => trivial, fun _ => rfl⟩

/-- A jump changes nothing but the program counter. -/
theorem step_jump {m : Machine} {c : Condition} {target : Word} (hr : m.status = .running)
    (hout : m.TakesTrace) (h : m.Holds (.jump c target)) :
    ∃ m', m.step = (m', .ok (some (.jump c target))) ∧
      m'.next = (if m.jumps c then target + 1 else m.next + 2) ∧
      m'.regs = m.regs ∧ m'.sp = m.sp ∧ m'.mem = m.mem := by
  obtain ⟨inst, dest, src, hfetch⟩ := h.fetch
  obtain ⟨out, hstep⟩ := step_of_execute hr hfetch rfl hout
  refine ⟨_, hstep, ?_, rfl, rfl, rfl⟩
  show (if m.jumps c then target else m.next + 1) + 1 = _
  split
  · rfl
  · rw [Int64.add_assoc]
    rfl

end Machine

end CellMachine
