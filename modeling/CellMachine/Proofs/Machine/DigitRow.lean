import CellMachine.Proofs.Machine.Stack

/-!
# CellMachine.Proofs.Machine.DigitRow

The printing of digits, as far as there are any.

* `Exec.printDigit`        — one pass of the loop, and `Exec.pops`, the number of passes.
* `Machine.digitRow`       — the digits that are there to be printed.
* `Machine.Popped`         — the machine behind some of the cells.
* `Machine.DigitsPrinted`  — how the loop ends, and with which machine.
* `printDigits_cases`      — it ends so unless the sink refuses a digit.
* `Machine.prnt_digitRow`  — `PRNT` of a row of digits.
-/

namespace CellMachine

variable {m m' m₁ : Machine} {w : Word} {ws : List Word}

/-! ## One pass -/

namespace Exec

/-- One pass of the loop over digits. -/
def printDigit : Exec Unit := do
  let w ← pop
  perform (.register Registers.r1a w)
  if isDigit w then print (digitText w) else fail (.invalidDigit w)

theorem printDigits_succ (count : Nat) (m : Machine) :
    printDigits (count + 1) m = (printDigit >>= fun _ => printDigits count) m := by
  rw [printDigits, printDigit]
  simp only [bind_apply]
  cases pop m with
  | mk m₁ r =>
    cases r with
    | error f => rfl
    | ok w =>
      simp only [perform_apply]
      split
      · rfl
      · rfl

/-- The number of times that the loop over digits pops. -/
def pops : Nat → Machine → Nat
  | 0, _ => 0
  | count + 1, m =>
    match printDigit m with
    | (m', .ok _) => pops count m' + 1
    | (_, .error _) => 1

theorem pops_of_ok (h : printDigit m = (m', .ok ())) (count : Nat) :
    pops (count + 1) m = pops count m' + 1 := by
  rw [pops, h]

theorem pops_of_error {f : Fault} (h : printDigit m = (m', .error f)) (count : Nat) :
    pops (count + 1) m = 1 := by
  rw [pops, h]

/-- A larger count makes no difference. -/
theorem printDigits_pops (count : Nat) (m : Machine) :
    printDigits (pops count m) m = printDigits count m := by
  induction count generalizing m with
  | zero => rfl
  | succ count ih =>
    cases h : printDigit m with
    | mk m' r =>
      cases r with
      | ok _ =>
        rw [pops_of_ok h, printDigits_succ, printDigits_succ, bind_of_ok h, bind_of_ok h, ih]
      | error f =>
        rw [pops_of_error h, printDigits_succ, printDigits_succ, bind_of_error h, bind_of_error h]

end Exec

namespace Machine

/-! ## Rows of cells -/

/-- The digits among the first cells from the stack pointer on, up to the first that is none. -/
def digitRow (m : Machine) (count : Nat) : List Word :=
  (m.stack.items.take count).takeWhile fun w => decide (w.IsPlace 10)

def digitsText (ws : List Word) : String :=
  .ofList (ws.map fun w => Char.ofNat ('0'.toNat + w.toInt.toNat))

/-- `m'` is `m` after `k` pops into `R1A` and the output of `text`. -/
structure Popped (m : Machine) (k : Nat) (text : String) (m' : Machine) : Prop where
  sp : m'.sp.toInt = m.sp.toInt + k
  output : m'.out.text = m.out.text ++ text
  last : m'.regs.word Registers.r1a =
    (m.stack.items.take k).getLastD (m.regs.word Registers.r1a)
  word : ∀ i, i ≠ Registers.r1a → m'.regs.word i = m.regs.word i
  flags : m'.regs.flags = m.regs.flags
  mem : m'.mem = m.mem

/-- How the printing of `count` digits ends: after all of them, or after the row of those that are
there, behind the last cell or at a cell that is no digit. -/
inductive DigitsPrinted (m : Machine) (count : Nat) (m' : Machine) : Except Fault Unit → Prop where
  | complete (hrow : (m.digitRow count).length = count)
      (h : m.Popped count (digitsText (m.digitRow count) ++ "\n") m') :
      DigitsPrinted m count m' (.ok ())
  | pastEnd (hrow : (m.digitRow count).length < count)
      (hend : m.sp.toInt + (m.digitRow count).length = m.mem.size)
      (h : m.Popped (m.digitRow count).length (digitsText (m.digitRow count)) m') :
      DigitsPrinted m count m' (.error (.stackUnderflow (Int64.ofNat m.mem.size)))
  | noDigit {w : Word} (hrow : (m.digitRow count).length < count)
      (hw : m.mem.cells[m.sp.toInt.toNat + (m.digitRow count).length]? = some w)
      (hdigit : ¬w.IsPlace 10)
      (h : m.Popped ((m.digitRow count).length + 1) (digitsText (m.digitRow count)) m') :
      DigitsPrinted m count m' (.error (.invalidDigit w))

theorem digitText_eq (h : w.IsPlace 10) : Exec.digitText w = digitsText [w] := by
  obtain ⟨hnonneg, hlt⟩ := h
  have hchar : ∀ n < 10, Nat.digitChar n = Char.ofNat ('0'.toNat + n) := by decide
  rw [Exec.digitText, hchar _ (by omega), String.singleton_eq_ofList]
  rfl

theorem digitsText_cons (w : Word) (ws : List Word) :
    digitsText (w :: ws) = digitsText [w] ++ digitsText ws := by
  rw [← List.singleton_append, digitsText, List.map_append, String.ofList_append]
  rfl

theorem length_items (h : StackFits m) : m.sp.toInt + m.stack.items.length = m.mem.size := by
  have hnonneg := h.nonneg
  have hle := h.le
  rw [stack, List.length_drop, Array.length_toList, Memory.size]
  rw [Memory.size] at hle
  omega

theorem getElem?_items (m : Machine) (k : Nat) :
    m.stack.items[k]? = m.mem.cells[m.sp.toInt.toNat + k]? := by
  rw [stack, List.getElem?_drop, Array.getElem?_toList]

theorem digitRow_of_isPlace (hitems : m.stack.items = w :: m₁.stack.items) (hw : w.IsPlace 10)
    (count : Nat) : m.digitRow (count + 1) = w :: m₁.digitRow count := by
  rw [digitRow, hitems, List.take_succ_cons, List.takeWhile_cons, if_pos (decide_eq_true hw)]
  rfl

theorem digitRow_of_not_isPlace (hitems : m.stack.items = w :: ws) (hw : ¬w.IsPlace 10)
    (count : Nat) : m.digitRow (count + 1) = [] := by
  rw [digitRow, hitems, List.take_succ_cons, List.takeWhile_cons, decide_eq_false hw]
  rfl

namespace Popped

variable {k : Nat} {text text' : String}

theorem stackFits (h : StackFits m) (hk : k ≤ m.stack.items.length) (h' : m.Popped k text m') :
    StackFits m' := by
  have hnonneg := h.nonneg
  have hlen := length_items h
  have hsp := h'.sp
  refine ⟨by omega, ?_, ?_⟩
  · rw [h'.mem]
    omega
  · rw [h'.mem]
    exact h.size

theorem items (h : StackFits m) (h' : m.Popped k text m') :
    m'.stack.items = m.stack.items.drop k := by
  have hnonneg := h.nonneg
  have hposition : m'.sp.toInt.toNat = m.sp.toInt.toNat + k := by
    rw [h'.sp]
    omega
  rw [stack, stack, h'.mem, hposition, List.drop_drop]

/-- One cell, and the cells behind it. -/
theorem cons (hitems : m.stack.items = w :: m₁.stack.items) (h₁ : m.Popped 1 text m₁)
    (h' : m₁.Popped k text' m') : m.Popped (k + 1) (text ++ text') m' where
  sp := by
    have hsp := h'.sp
    have hsp₁ := h₁.sp
    omega
  output := by rw [h'.output, h₁.output, String.append_assoc]
  last := by
    have hlast := h₁.last
    rw [hitems] at hlast
    rw [h'.last, hitems, List.take_succ_cons, List.getLastD_cons, hlast]
    rfl
  word i hi := (h'.word i hi).trans (h₁.word i hi)
  flags := h'.flags.trans h₁.flags
  mem := h'.mem.trans h₁.mem

end Popped

/-! ## The loop on the cells -/

/-- How one pass ends. -/
inductive DigitPrinted (m : Machine) : Machine → Except Fault Unit → Prop where
  | digit {w : Word} {ws : List Word} {m' : Machine} (hitems : m.stack.items = w :: ws)
      (hw : w.IsPlace 10) (h : m.Popped 1 (digitsText [w]) m') : DigitPrinted m m' (.ok ())
  | noDigit {w : Word} {ws : List Word} {m' : Machine} (hitems : m.stack.items = w :: ws)
      (hw : ¬w.IsPlace 10) (h : m.Popped 1 "" m') : DigitPrinted m m' (.error (.invalidDigit w))
  | pastEnd (hitems : m.stack.items = []) :
      DigitPrinted m m (.error (.stackUnderflow (Int64.ofNat m.mem.size)))
  | refused {m' : Machine} {reason : String} : DigitPrinted m m' (.error (.output reason))

theorem printDigit_cases (h : StackFits m) :
    ∃ m' r, Exec.printDigit m = (m', r) ∧ m.DigitPrinted m' r := by
  unfold Exec.printDigit
  rcases Int.lt_or_eq_of_le h.le with hlt | heq
  · obtain ⟨w, hw, hpop⟩ := pop_of_lt h.nonneg hlt
    rw [Exec.bind_of_ok hpop, Exec.perform_bind]
    have hitems : m.stack.items = w :: m.stack.items.drop 1 := by
      rw [← Nat.add_zero m.sp.toInt.toNat, ← getElem?_items] at hw
      obtain ⟨hpos, rfl⟩ := List.getElem?_eq_some_iff.mp hw
      exact List.drop_eq_getElem_cons (i := 0) hpos
    let m₁ := (m.apply (.stack (m.sp + 1))).apply (.register Registers.r1a w)
    have h₁ : ∀ (out : Sink) (text : String), out.text = m.out.text ++ text →
        m.Popped 1 text (m₁.apply (.output out)) := by
      intro out text hout
      refine ⟨h.succ hlt, hout, ?_, fun i hi => Registers.word_put_of_ne hi _ w, rfl, rfl⟩
      rw [hitems]
      exact Registers.word_put _ _ w
    split
    · rename_i hdigit
      have hplace := isDigit_iff.mp hdigit
      rcases print_cases m₁ (Exec.digitText w) with ⟨out, hout, hprint⟩ | ⟨m₂, reason, hprint⟩
      · rw [digitText_eq hplace] at hout
        exact ⟨_, _, hprint, .digit hitems hplace (h₁ out _ hout)⟩
      · exact ⟨m₂, _, hprint, .refused⟩
    · rename_i hdigit
      have hnot : ¬w.IsPlace 10 := fun hplace => hdigit (isDigit_iff.mpr hplace)
      exact ⟨m₁, _, rfl, .noDigit hitems hnot (h₁ m.out "" String.append_empty.symm)⟩
  · have hitems : m.stack.items = [] := by
      have hlen := length_items h
      exact List.length_eq_zero_iff.mp (by omega)
    rw [Exec.bind_of_error (pop_of_eq heq), Word.eq_ofNat_of_toInt_eq heq]
    exact ⟨m, _, rfl, .pastEnd hitems⟩

theorem DigitsPrinted.cons {count : Nat} {r : Except Fault Unit} (h : StackFits m)
    (hitems : m.stack.items = w :: ws) (hw : w.IsPlace 10) (h₁ : m.Popped 1 (digitsText [w]) m₁)
    (h' : m₁.DigitsPrinted count m' r) : m.DigitsPrinted (count + 1) m' r := by
  have hitems₁ : m.stack.items = w :: m₁.stack.items := by
    rw [h₁.items h, hitems]
    rfl
  have hrow := digitRow_of_isPlace hitems₁ hw count
  have hlen : (m.digitRow (count + 1)).length = (m₁.digitRow count).length + 1 := by
    rw [hrow, List.length_cons]
  have hsp := h₁.sp
  cases h' with
  | complete hall hpopped =>
    refine .complete (by omega) ?_
    rw [hrow, digitsText_cons, String.append_assoc]
    exact h₁.cons hitems₁ hpopped
  | pastEnd hfew hend hpopped =>
    rw [h₁.mem] at hend ⊢
    refine .pastEnd (by omega) (by omega) ?_
    rw [hlen, hrow, digitsText_cons]
    exact h₁.cons hitems₁ hpopped
  | noDigit hfew hcell hnot hpopped =>
    refine .noDigit (by omega) ?_ hnot ?_
    · rw [← getElem?_items] at hcell ⊢
      rw [hlen, hitems₁]
      exact hcell
    · rw [hlen, hrow, digitsText_cons]
      exact h₁.cons hitems₁ hpopped

theorem DigitsPrinted.of_noDigit (hitems : m.stack.items = w :: ws) (hw : ¬w.IsPlace 10)
    (h : m.Popped 1 "" m') (count : Nat) :
    m.DigitsPrinted (count + 1) m' (.error (.invalidDigit w)) := by
  have hrow := digitRow_of_not_isPlace hitems hw count
  refine .noDigit ?_ ?_ hw ?_
  · rw [hrow]
    exact Nat.succ_pos count
  · rw [← getElem?_items, hrow, hitems]
    rfl
  · rw [hrow]
    exact h

theorem DigitsPrinted.of_pastEnd (h : StackFits m) (hitems : m.stack.items = []) (count : Nat) :
    m.DigitsPrinted (count + 1) m (.error (.stackUnderflow (Int64.ofNat m.mem.size))) := by
  have hrow : m.digitRow (count + 1) = [] := by
    rw [digitRow, hitems]
    rfl
  have hlen := length_items h
  rw [hitems] at hlen
  refine .pastEnd ?_ ?_ ?_
  · rw [hrow]
    exact Nat.succ_pos count
  · rw [hrow]
    exact hlen
  · rw [hrow]
    exact ⟨(Int.add_zero _).symm, String.append_empty.symm, rfl, fun _ _ => rfl, rfl, rfl⟩

/-- By induction on the count: the row from one cell on is that cell, if it is a digit, and the row
from the next one on. -/
theorem printDigits_cases (h : StackFits m) (count : Nat) :
    ∃ m' r, Exec.printDigits count m = (m', r) ∧
      ((∃ reason, r = .error (.output reason)) ∨ m.DigitsPrinted count m' r) := by
  induction count generalizing m with
  | zero =>
    rw [Exec.printDigits]
    rcases print_cases m "\n" with ⟨out, hout, hprint⟩ | ⟨m', reason, hprint⟩
    · refine ⟨_, _, hprint, .inr (.complete rfl ?_)⟩
      exact ⟨(Int.add_zero _).symm, hout, rfl, fun _ _ => rfl, rfl, rfl⟩
    · exact ⟨m', _, hprint, .inl ⟨reason, rfl⟩⟩
  | succ count ih =>
    rw [Exec.printDigits_succ]
    obtain ⟨m₁, r₁, hdigit, hcases⟩ := printDigit_cases h
    cases hcases with
    | digit hitems hw h₁ =>
      have hfits : StackFits m₁ := h₁.stackFits h (by rw [hitems]; exact Nat.le_add_left _ _)
      obtain ⟨m', r, hprint, hr⟩ := ih hfits
      exact ⟨m', r, (Exec.bind_of_ok hdigit _).trans hprint,
        hr.imp_right fun h' => h'.cons h hitems hw h₁⟩
    | noDigit hitems hw h₁ =>
      exact ⟨m₁, _, Exec.bind_of_error hdigit _, .inr (.of_noDigit hitems hw h₁ count)⟩
    | pastEnd hitems =>
      exact ⟨m, _, Exec.bind_of_error hdigit _, .inr (.of_pastEnd h hitems count)⟩
    | refused => exact ⟨m₁, _, Exec.bind_of_error hdigit _, .inl ⟨_, rfl⟩⟩

/-- Each pass but the last one has a cell to pop. -/
theorem pops_le (h : StackFits m) (count : Nat) : Exec.pops count m ≤ m.stack.items.length + 1 := by
  induction count generalizing m with
  | zero => exact Nat.zero_le _
  | succ count ih =>
    obtain ⟨m₁, r, hdigit, hcases⟩ := printDigit_cases h
    cases hcases with
    | digit hitems hw h₁ =>
      have hpos : 1 ≤ m.stack.items.length := by
        rw [hitems]
        exact Nat.le_add_left _ _
      have hle := ih (h₁.stackFits h hpos)
      rw [h₁.items h, List.length_drop] at hle
      rw [Exec.pops_of_ok hdigit]
      omega
    | _ =>
      rw [Exec.pops_of_error hdigit]
      exact Nat.le_add_left _ _

/-! ## The instruction -/

theorem Popped.congr {n n' : Machine} {k : Nat} {text : String} (h : m.Popped k text m')
    (hm : m.SameData n) (hm' : m'.SameData n') : n.Popped k text n' := by
  obtain ⟨hregs, hsp, hmem, hout⟩ := hm
  obtain ⟨hregs', hsp', hmem', hout'⟩ := hm'
  constructor
  · rw [hsp, hsp']
    exact h.sp
  · rw [hout, hout']
    exact h.output
  · rw [hregs, hregs', stack, hsp, hmem]
    exact h.last
  · rw [hregs, hregs']
    exact h.word
  · rw [hregs, hregs']
    exact h.flags
  · rw [hmem, hmem']
    exact h.mem

theorem DigitsPrinted.congr {n n' : Machine} {count : Nat} {r : Except Fault Unit}
    (h : m.DigitsPrinted count m' r) (hm : m.SameData n) (hm' : m'.SameData n') :
    n.DigitsPrinted count n' r := by
  have hrow : n.digitRow count = m.digitRow count := by
    rw [digitRow, digitRow, stack, stack, hm.2.1, hm.2.2.1]
  have hmem := hm.2.2.1
  have hsp := hm.2.1
  cases h with
  | complete hall hpopped =>
    rw [← hrow] at hall hpopped
    exact .complete hall (hpopped.congr hm hm')
  | pastEnd hfew hend hpopped =>
    rw [← hrow] at hfew hend hpopped
    rw [← hmem] at hend ⊢
    rw [← hsp] at hend
    exact .pastEnd hfew hend (hpopped.congr hm hm')
  | noDigit hfew hcell hdigit hpopped =>
    rw [← hrow] at hfew hcell hpopped
    rw [← hmem, ← hsp] at hcell
    exact .noDigit hfew hcell hdigit (hpopped.congr hm hm')

theorem act_prnt_of_string (ht : m.regs.tagA = some .string) :
    Exec.act .prnt m = Exec.printDigits m.regs.digitCount m := by
  show Exec.printValue m = _
  unfold Exec.printValue
  rw [Exec.machine_bind]
  simp only [ht]
  rfl

theorem execute_prnt_of_string (h : StackFits m) (hout : m.out.Accepts)
    (ht : m.regs.tagA = some .string) :
    ∃ m' r, Exec.execute .prnt m = (m', r) ∧ m.DigitsPrinted m.regs.digitCount m' r := by
  have hfaults : FailsFor (Exec.printDigits m.regs.digitCount m).2 _ := failsFor_printDigits hout h
  obtain ⟨m₁, r, hprint, hr⟩ := printDigits_cases h m.regs.digitCount
  rw [hprint] at hfaults
  have hact := (act_prnt_of_string ht).trans hprint
  rcases hr with ⟨reason, rfl⟩ | hr
  · rcases hfaults.fault _ rfl with ⟨-, ⟨⟩⟩ | ⟨_, _, _, _, _, ⟨⟩⟩
  · cases r with
    | ok _ => exact ⟨_, _, execute_of_act hact, hr.congr ⟨rfl, rfl, rfl, rfl⟩ ⟨rfl, rfl, rfl, rfl⟩⟩
    | error f => exact ⟨m₁, _, Exec.bind_of_error hact _, hr⟩

/-- `PRNT` of digits, with any word for their count, over a sink that takes every write. It pops at
most once for each cell from the stack pointer on, and once more. It prints the row of the digits
that are there, and ends the line if these are all. Otherwise it fails behind them. This is what the
instruction does by itself, and what a step without a trace does. -/
theorem prnt_digitRow (hn : Word.Covers m.mem.size) (hnonneg : 0 ≤ m.sp.toInt)
    (hle : m.sp.toInt ≤ m.mem.size) (hout : m.out.Accepts) (ht : m.regs.word Registers.r0a = 3) :
    let count := (m.regs.word Registers.r1a).toInt.toNat
    Exec.act .prnt m = Exec.printDigits (Exec.pops count m) m ∧
    (Exec.pops count m : Int) ≤ m.mem.size - m.sp.toInt + 1 ∧
    (∃ m' r, Exec.execute .prnt m = (m', r) ∧ m.DigitsPrinted count m' r) ∧
    (m.status = .running → m.config.debug = false → m.Holds .prnt →
      ∃ m' r, m.step = (m', r.map fun _ => some .prnt) ∧ m.DigitsPrinted count m' r) := by
  intro count
  have hfits : StackFits m := ⟨hnonneg, hle, hn⟩
  have hstring : m.regs.tagA = some .string := by
    rw [Registers.tagA, ht]
    rfl
  refine ⟨?_, ?_, execute_prnt_of_string hfits hout hstring, fun hr hd hholds => ?_⟩
  · rw [Exec.printDigits_pops]
    exact act_prnt_of_string hstring
  · have hlen := length_items hfits
    have hpops := pops_le hfits count
    omega
  · obtain ⟨inst, dest, src, hfetch⟩ := hholds.fetch
    obtain ⟨m₂, r, hexecute, hprinted⟩ :=
      execute_prnt_of_string (m := m.fetched inst dest src) ⟨hnonneg, hle, hn⟩ hout hstring
    obtain ⟨m', hstep, hsame⟩ := step_of_fetch hr hfetch hd hexecute
    exact ⟨m', r, hstep, hprinted.congr ⟨rfl, rfl, rfl, rfl⟩ hsame⟩

/-- Two digits before a cell that is none, at the end of memory, for the largest count. -/
theorem prnt_digitRow_cut :
    let m : Machine := { new ⟨#[30, 4, 2, 10]⟩ with
      sp := 1, regs := { r := #v[3, Int64.maxValue, 0, 0, 0, 0, 0, 0,
        0, 0, 0, 0, 0, 0, 0, 0] } }
    ∃ m', m.step = (m', .error (.invalidDigit 10)) ∧ m'.out.text = "42" ∧ m'.sp = 4 ∧
      m'.regs.word Registers.r1a = 10 ∧ m'.mem = m.mem := by
  intro m
  have hout : m.out.Accepts := ⟨fun _ h => absurd h List.not_mem_nil, rfl⟩
  obtain ⟨-, -, -, hstep⟩ := prnt_digitRow (m := m) (by decide) (by decide) (by decide) hout rfl
  obtain ⟨m', r, hstep, hprinted⟩ := hstep rfl rfl ⟨0, by decide, by decide⟩
  have hrow : m.digitRow (m.regs.word Registers.r1a).toInt.toNat = [4, 2] := by decide +kernel
  cases hprinted with
  | complete hall =>
    rw [hrow] at hall
    exact absurd hall (by decide +kernel)
  | pastEnd hfew hend =>
    rw [hrow] at hend
    exact absurd hend (by decide +kernel)
  | noDigit hfew hcell hdigit hpopped =>
    rw [hrow] at hcell hpopped
    cases hcell
    refine ⟨m', hstep, hpopped.output, Int64.toInt_inj.mp hpopped.sp, ?_, hpopped.mem⟩
    rw [hpopped.last]
    rfl

end Machine

end CellMachine
