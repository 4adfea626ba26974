import CellMachine.Proofs.Machine.Execution

/-!
# CellMachine.Proofs.Machine.Stack

The stack in memory is a list that has room for so many words.

* `Stack`              — the list, with the registers that its words come from and go to.
* `Machine.stack`      — the list that the cells from the stack pointer on hold.
* `execute_stackOp`    — a push or a pop does to the cells what it does to the list.
* `executeAll_stackOps` — any row of them, up to the first that fails.
* `Machine.stack_refines_list` — these together, and that what is pushed comes back in reverse.
-/

namespace CellMachine

/-- A push from a register, or a pop into one. -/
inductive StackOp where
  | push (i : Fin 16)
  | pop (i : Fin 16)
  deriving DecidableEq

def StackOp.instruction : StackOp → Instruction
  | .push i => .push (Int64.ofNat i)
  | .pop i => .pop (Int64.ofNat i)

/-- A list of words, the number of words that it still has room for, and registers. -/
structure Stack where
  room : Nat
  items : List Word
  regs : Registers
  deriving DecidableEq

namespace Stack

def perform (s : Stack) : StackOp → Except Fault Stack
  | .push i =>
    match s.room with
    | 0 => .error (.stackOverflow 0)
    | room + 1 => .ok { s with room, items := s.regs.word i :: s.items }
  | .pop i =>
    match s.items with
    | [] => .error (.stackUnderflow (Int64.ofNat s.room))
    | w :: items => .ok { room := s.room + 1, items, regs := s.regs.put i w }

/-- The operations in order, up to the first that fails. -/
def performAll (s : Stack) : List StackOp → Stack × Except Fault Unit
  | [] => (s, .ok ())
  | op :: ops =>
    match s.perform op with
    | .ok s' => s'.performAll ops
    | .error f => (s, .error f)

theorem perform_push_eq_ok {s s' : Stack} {i : Fin 16} :
    s.perform (.push i) = .ok s' ↔
      s.room = s'.room + 1 ∧ s'.items = s.regs.word i :: s.items ∧ s'.regs = s.regs := by
  obtain ⟨room, items, regs⟩ := s
  obtain ⟨room', items', regs'⟩ := s'
  cases room with
  | zero => exact ⟨nofun, fun h => nomatch h.1⟩
  | succ room =>
    simp only [perform, Except.ok.injEq, mk.injEq, Nat.add_right_cancel_iff, eq_comm]

theorem perform_pop_eq_ok {s s' : Stack} {i : Fin 16} :
    s.perform (.pop i) = .ok s' ↔
      s'.room = s.room + 1 ∧ ∃ w, s.items = w :: s'.items ∧ s'.regs = s.regs.put i w := by
  obtain ⟨room, items, regs⟩ := s
  obtain ⟨room', items', regs'⟩ := s'
  cases items with
  | nil => exact ⟨nofun, fun ⟨_, _, h, _⟩ => nomatch h⟩
  | cons w items =>
    simp only [perform, Except.ok.injEq, mk.injEq, List.cons.injEq, eq_comm]
    constructor
    · rintro ⟨hroom, hitems, hregs⟩
      exact ⟨hroom, w, ⟨rfl, hitems⟩, hregs⟩
    · rintro ⟨hroom, _, ⟨rfl, hitems⟩, hregs⟩
      exact ⟨hroom, hitems, hregs⟩

theorem performAll_of_ok {s s' : Stack} {op : StackOp} (h : s.perform op = .ok s')
    (ops : List StackOp) : s.performAll (op :: ops) = s'.performAll ops := by
  rw [performAll, h]

theorem performAll_of_error {s : Stack} {op : StackOp} {f : Fault} (h : s.perform op = .error f)
    (ops : List StackOp) : s.performAll (op :: ops) = (s, .error f) := by
  rw [performAll, h]

end Stack

/-- The registers with words put into several of them, in order. -/
def Registers.putEach (regs : Registers) (is : List (Fin 16)) (ws : List Word) : Registers :=
  (is.zip ws).foldl (fun regs p => regs.put p.1 p.2) regs

/-! ## The list alone -/

namespace Stack

/-- Pushes succeed as long as there is room, and leave the words in reverse. -/
theorem performAll_push {s s' : Stack} {is : List (Fin 16)}
    (h : s.performAll (is.map .push) = (s', .ok ())) :
    s.room = s'.room + is.length ∧ s' = ⟨s'.room, (is.map s.regs.word).reverse ++ s.items, s.regs⟩ := by
  induction is generalizing s with
  | nil =>
    cases h
    exact ⟨rfl, rfl⟩
  | cons i is ih =>
    obtain ⟨room, items, regs⟩ := s
    cases room with
    | zero => cases h
    | succ room =>
      obtain ⟨hroom, hs'⟩ := ih h
      refine ⟨congrArg (· + 1) hroom, hs'.trans ?_⟩
      simp only [List.map_cons, List.reverse_cons, List.append_assoc, List.cons_append,
        List.nil_append]

/-- Pops hand out the items from the first one on. -/
theorem performAll_pop {is : List (Fin 16)} {ws : List Word} (h : is.length = ws.length)
    (room : Nat) (items : List Word) (regs : Registers) :
    performAll ⟨room, ws ++ items, regs⟩ (is.map .pop) =
      (⟨room + is.length, items, regs.putEach is ws⟩, .ok ()) := by
  induction is generalizing room ws regs with
  | nil =>
    rw [List.length_eq_zero_iff.mp h.symm]
    rfl
  | cons i is ih =>
    cases ws with
    | nil => cases h
    | cons w ws =>
      have ih := ih (Nat.succ.inj h) (room + 1) (regs.put i w)
      rw [Nat.add_right_comm, Nat.add_assoc] at ih
      exact ih

/-- Words that were pushed are popped in reverse. -/
theorem performAll_push_pop {s s' : Stack} {is js : List (Fin 16)}
    (h : s.performAll (is.map .push) = (s', .ok ())) (hlen : js.length ≤ is.length) :
    let pushed := (is.map s.regs.word).reverse
    s'.performAll (js.map .pop) =
      (⟨s'.room + js.length, pushed.drop js.length ++ s.items,
        s.regs.putEach js (pushed.take js.length)⟩, .ok ()) := by
  intro pushed
  have htake : js.length = (pushed.take js.length).length := by
    rw [List.length_take, List.length_reverse, List.length_map, Nat.min_eq_left hlen]
  have hitems : pushed ++ s.items = pushed.take js.length ++ (pushed.drop js.length ++ s.items) := by
    rw [← List.append_assoc, List.take_append_drop]
  rw [(performAll_push h).2, show (is.map s.regs.word).reverse = pushed from rfl, hitems]
  exact performAll_pop htake _ _ _

end Stack

namespace Registers

theorem word_put (regs : Registers) (i : Fin 16) (w : Word) : (regs.put i w).word i = w :=
  Vector.getElem_set_self i.isLt

theorem word_put_of_ne {i j : Fin 16} (h : j ≠ i) (regs : Registers) (w : Word) :
    (regs.put i w).word j = regs.word j :=
  Vector.getElem_set_ne i.isLt j.isLt fun hij => h (Fin.ext hij.symm)

/-- The word that was put last is still there. -/
theorem word_putEach_concat {is : List (Fin 16)} {ws : List Word} (h : is.length = ws.length)
    (regs : Registers) (i : Fin 16) (w : Word) :
    (regs.putEach (is ++ [i]) (ws ++ [w])).word i = w := by
  rw [putEach, List.zip_append h, List.foldl_append]
  exact word_put _ i w

theorem slot_ofNat (i : Fin 16) : slot (Int64.ofNat i) = .ok i := by
  revert i
  decide

end Registers

/-! ## The cells -/

/-- A row of instructions, up to the first that fails. -/
def Exec.executeAll : List Instruction → Exec Unit
  | [] => return
  | i :: is => do
    execute i
    executeAll is

namespace Machine

variable {m m' : Machine}

/-- The cells from the stack pointer on, and the room before them. -/
def stack (m : Machine) : Stack where
  room := m.sp.toInt.toNat
  items := m.mem.cells.toList.drop m.sp.toInt.toNat
  regs := m.regs

theorem register_ofNat (m : Machine) (i : Fin 16) :
    m.register (Int64.ofNat i) = .ok (m.regs.word i) := by
  rw [register, Registers.get, Registers.slot_ofNat]
  rfl

theorem setRegister_ofNat (m : Machine) (i : Fin 16) (w : Word) :
    Exec.setRegister (Int64.ofNat i) w m = (m.apply (.register i w), .ok ()) := by
  refine Exec.read_bind_of_ok (f := fun _ => slot (Int64.ofNat i)) (a := i) ?_ _
  rw [slot, Registers.slot_ofNat]
  rfl

theorem act_push (m : Machine) (i : Fin 16) :
    Exec.act (.push (Int64.ofNat i)) m = Exec.push (m.regs.word i) m :=
  Exec.read_bind_of_ok (f := (·.register (Int64.ofNat i))) (m.register_ofNat i) _

theorem act_pop (m : Machine) (i : Fin 16) :
    Exec.act (.pop (Int64.ofNat i)) m =
      (Exec.pop >>= Exec.setRegister (Int64.ofNat i)) m :=
  Exec.read_bind_of_ok (f := (·.register (Int64.ofNat i))) (m.register_ofNat i) _

/-- A push leaves the cells from the stack pointer on as they are. -/
theorem execute_push_of_pos (h : StackFits m) (hsp : 0 < m.sp.toInt) (i : Fin 16) :
    Exec.execute (.push (Int64.ofNat i)) m =
      ({ m with
          mem := m.mem.put (m.sp.toInt.toNat - 1) (m.regs.word i)
          sp := m.sp - 1
          pc := m.pc + 1 }, .ok ()) := by
  have hle := h.le
  have hlt : m.sp.toInt.toNat - 1 < m.mem.size := by omega
  have hplace : (m.sp - 1).place? m.mem.size = some ⟨m.sp.toInt.toNat - 1, hlt⟩ := by
    refine Word.place?_of_toInt_eq ?_ hlt
    rw [Word.toInt_sub_one h.nonneg]
    omega
  have hposition : (m.position (m.sp - 1)).map Fin.val = .ok (m.sp.toInt.toNat - 1) := by
    rw [position, Memory.index, hplace]
    rfl
  have hpush : Exec.push (m.regs.word i) m =
      ((m.apply (.store (m.sp.toInt.toNat - 1) (m.regs.word i))).apply (.stack (m.sp - 1)),
        .ok ()) := by
    unfold Exec.push
    rw [Exec.machine_bind, if_neg]
    · exact Exec.bind_of_ok (Exec.read_bind_of_ok hposition _) _
    · rw [Int64.le_iff_toInt_le, Int64.toInt_zero]
      omega
  exact execute_of_act ((m.act_push i).trans hpush)

theorem execute_push_of_zero (h : m.sp = 0) (i : Fin 16) :
    Exec.execute (.push (Int64.ofNat i)) m = (m, .error (.stackOverflow 0)) := by
  have hpush : Exec.push (m.regs.word i) m = (m, .error (.stackOverflow 0)) := by
    unfold Exec.push
    rw [Exec.machine_bind, h]
    rfl
  exact Exec.bind_of_error ((m.act_push i).trans hpush) _

theorem execute_pop_of_lt (h : StackFits m) (hsp : m.sp.toInt < m.mem.size) (i : Fin 16) :
    ∃ w, m.mem.cells[m.sp.toInt.toNat]? = some w ∧
      Exec.execute (.pop (Int64.ofNat i)) m =
        ({ m with regs := m.regs.put i w, sp := m.sp + 1, pc := m.pc + 1 }, .ok ()) := by
  obtain ⟨w, hw, hpop⟩ := pop_of_lt h.nonneg hsp
  exact ⟨w, hw, execute_of_act ((m.act_pop i).trans
    ((Exec.bind_of_ok hpop _).trans (setRegister_ofNat _ i w)))⟩

theorem execute_pop_of_eq (h : m.sp.toInt = m.mem.size) (i : Fin 16) :
    Exec.execute (.pop (Int64.ofNat i)) m = (m, .error (.stackUnderflow m.sp)) :=
  Exec.bind_of_error ((m.act_pop i).trans (Exec.bind_of_error (pop_of_eq h) _)) _

theorem stack_of_push {p : Nat} (hp : p < m.mem.size) (w : Word) {sp pc : Word}
    (hsp : sp.toInt = (p : Int)) :
    ({ m with mem := m.mem.put p w, sp, pc } : Machine).stack =
      ⟨p, w :: m.mem.cells.toList.drop (p + 1), m.regs⟩ := by
  have hp' : p < m.mem.cells.toList.length := hp
  have hdrop : (m.mem.put p w).cells.toList.drop p = w :: m.mem.cells.toList.drop (p + 1) := by
    rw [Memory.put, Array.toList_setIfInBounds, List.drop_set, if_neg (Nat.lt_irrefl p), Nat.sub_self,
      List.drop_eq_getElem_cons hp']
    rfl
  rw [stack, hsp, Int.toNat_natCast, hdrop]

/-- What a push or a pop does to the cells from the stack pointer on is what it does to a list. One
that fails changes nothing. -/
theorem execute_stackOp (h : StackFits m) (op : StackOp) :
    (∃ m', Exec.execute op.instruction m = (m', .ok ()) ∧ StackFits m' ∧
        m.stack.perform op = .ok m'.stack) ∨
      ∃ f, Exec.execute op.instruction m = (m, .error f) ∧ m.stack.perform op = .error f := by
  obtain ⟨p, hp⟩ := Int.eq_ofNat_of_zero_le h.nonneg
  have hle := h.le
  have hstack : m.stack = ⟨p, m.mem.cells.toList.drop p, m.regs⟩ := by
    rw [stack, hp, Int.toNat_natCast]
  rw [hp] at hle
  cases op with
  | push i =>
    cases p with
    | zero =>
      have hzero : m.sp = 0 := Word.eq_ofNat_of_toInt_eq hp
      refine .inr ⟨_, execute_push_of_zero hzero i, ?_⟩
      rw [hstack]
      rfl
    | succ p =>
      have hsp : (m.sp - 1).toInt = (p : Int) := by
        rw [Word.toInt_sub_one h.nonneg]
        omega
      have hlt : p < m.mem.size := by omega
      have hexecute := execute_push_of_pos h (by omega) i
      rw [hp, Int.toNat_natCast, Nat.add_sub_cancel] at hexecute
      refine .inl ⟨_, hexecute, ⟨?_, ?_, ?_⟩, ?_⟩
      · show 0 ≤ (m.sp - 1).toInt
        omega
      · show (m.sp - 1).toInt ≤ (m.mem.put p _).size
        rw [Memory.size_put]
        omega
      · show Word.Covers (m.mem.put p _).size
        rw [Memory.size_put]
        exact h.size
      · rw [stack_of_push hlt _ hsp, hstack]
        rfl
  | pop i =>
    rcases Nat.lt_or_eq_of_le (Int.ofNat_le.mp hle) with hlt | heq
    · obtain ⟨w, hw, hexecute⟩ := execute_pop_of_lt h (by omega) i
      have hsp := h.succ (by omega)
      have hitems : m.mem.cells.toList.drop p = w :: m.mem.cells.toList.drop (p + 1) := by
        rw [hp, Int.toNat_natCast, ← Array.getElem?_toList] at hw
        obtain ⟨hlt, rfl⟩ := List.getElem?_eq_some_iff.mp hw
        exact List.drop_eq_getElem_cons hlt
      refine .inl ⟨_, hexecute, ⟨?_, ?_, h.size⟩, ?_⟩
      · show 0 ≤ (m.sp + 1).toInt
        omega
      · show (m.sp + 1).toInt ≤ m.mem.size
        omega
      · have hstack' : ({ m with regs := m.regs.put i w, sp := m.sp + 1, pc := m.pc + 1 } :
            Machine).stack = ⟨p + 1, m.mem.cells.toList.drop (p + 1), m.regs.put i w⟩ := by
          rw [stack, hsp, hp]
          rfl
        rw [hstack', hstack, hitems]
        rfl
    · have hitems : m.mem.cells.toList.drop p = [] := List.drop_eq_nil_of_le (Nat.le_of_eq heq.symm)
      refine .inr ⟨_, execute_pop_of_eq (by omega) i, ?_⟩
      rw [hstack, hitems, Word.eq_ofNat_of_toInt_eq hp]
      rfl

/-- Any row of pushes and pops does to the cells what it does to a list, and fails where it does
there. -/
theorem executeAll_stackOps (h : StackFits m) (ops : List StackOp) :
    let r := Exec.executeAll (ops.map StackOp.instruction) m
    StackFits r.1 ∧ r.1.stack = (m.stack.performAll ops).1 ∧ r.2 = (m.stack.performAll ops).2 := by
  induction ops generalizing m with
  | nil => exact ⟨h, rfl, rfl⟩
  | cons op ops ih =>
    rw [List.map_cons, Exec.executeAll]
    obtain ⟨m', hexecute, h', hperform⟩ | ⟨f, hexecute, hperform⟩ := execute_stackOp h op
    · rw [Exec.bind_of_ok hexecute, Stack.performAll_of_ok hperform]
      exact ih h'
    · rw [Exec.bind_of_error hexecute, Stack.performAll_of_error hperform]
      exact ⟨h, rfl, rfl⟩

/-- What single pushes and pops do at `m`. -/
structure PushesAndPops (m : Machine) : Prop where
  push_ok_iff : ∀ i, (∃ m', Exec.execute (StackOp.push i).instruction m = (m', .ok ())) ↔
    0 < m.sp.toInt
  /-- The word comes in front of the items, and their cells stay as they are. -/
  push : ∀ i m', Exec.execute (StackOp.push i).instruction m = (m', .ok ()) →
    m'.sp.toInt = m.sp.toInt - 1 ∧ m'.stack.items = m.regs.word i :: m.stack.items ∧
      m'.regs = m.regs ∧ ∀ p, m.sp.toInt.toNat ≤ p → m'.mem.cells[p]? = m.mem.cells[p]?
  pop_ok_iff : ∀ i, (∃ m', Exec.execute (StackOp.pop i).instruction m = (m', .ok ())) ↔
    m.stack.items ≠ []
  /-- The first item goes into the register, and no cell changes. -/
  pop : ∀ i m', Exec.execute (StackOp.pop i).instruction m = (m', .ok ()) →
    m'.sp.toInt = m.sp.toInt + 1 ∧ m'.mem = m.mem ∧
      ∃ w, m.stack.items = w :: m'.stack.items ∧ m'.regs = m.regs.put i w
  error : ∀ (op : StackOp) m' f, Exec.execute op.instruction m = (m', .error f) → m' = m

theorem execute_stackOp_ok_iff (h : StackFits m) {op : StackOp} :
    (∃ m', Exec.execute op.instruction m = (m', .ok ())) ↔ ∃ s, m.stack.perform op = .ok s := by
  obtain ⟨m', hexecute, -, hperform⟩ | ⟨f, hexecute, hperform⟩ := execute_stackOp h op
  · exact ⟨fun _ => ⟨_, hperform⟩, fun _ => ⟨_, hexecute⟩⟩
  · constructor
    · rintro ⟨m', hm'⟩
      cases hexecute.symm.trans hm'
    · rintro ⟨s, hs⟩
      cases hperform.symm.trans hs

theorem perform_of_execute_ok (h : StackFits m) {op : StackOp}
    (hm' : Exec.execute op.instruction m = (m', .ok ())) :
    StackFits m' ∧ m.stack.perform op = .ok m'.stack := by
  obtain ⟨m₁, hexecute, h', hperform⟩ | ⟨f, hexecute, -⟩ := execute_stackOp h op
  · cases hexecute.symm.trans hm'
    exact ⟨h', hperform⟩
  · cases hexecute.symm.trans hm'

theorem pushesAndPops (h : StackFits m) : m.PushesAndPops where
  push_ok_iff i := by
    have hnonneg := h.nonneg
    rw [execute_stackOp_ok_iff h]
    constructor
    · rintro ⟨s, hs⟩
      have hroom : m.sp.toInt.toNat = s.room + 1 := (Stack.perform_push_eq_ok.mp hs).1
      omega
    · intro hpos
      have hroom : m.stack.room = m.stack.room - 1 + 1 := by
        show m.sp.toInt.toNat = m.sp.toInt.toNat - 1 + 1
        omega
      exact ⟨⟨_, _, _⟩, Stack.perform_push_eq_ok.mpr ⟨hroom, rfl, rfl⟩⟩
  push i m' hm' := by
    obtain ⟨h', hperform⟩ := perform_of_execute_ok h hm'
    obtain ⟨hroom, hitems, hregs⟩ := Stack.perform_push_eq_ok.mp hperform
    have hroom : m.sp.toInt.toNat = m'.sp.toInt.toNat + 1 := hroom
    have hnonneg := h.nonneg
    have hnonneg' := h'.nonneg
    refine ⟨by omega, hitems, hregs, fun p hp => ?_⟩
    cases (execute_push_of_pos h (by omega) i).symm.trans hm'
    exact Array.getElem?_setIfInBounds_ne (by omega)
  pop_ok_iff i := by
    rw [execute_stackOp_ok_iff h]
    constructor
    · rintro ⟨s, hs⟩
      obtain ⟨-, w, hw, -⟩ := Stack.perform_pop_eq_ok.mp hs
      rw [hw]
      exact List.cons_ne_nil _ _
    · intro hne
      obtain ⟨w, items, hitems⟩ := List.exists_cons_of_ne_nil hne
      exact ⟨⟨_, _, _⟩, Stack.perform_pop_eq_ok.mpr ⟨rfl, w, hitems, rfl⟩⟩
  pop i m' hm' := by
    obtain ⟨h', hperform⟩ := perform_of_execute_ok h hm'
    obtain ⟨hroom, hitems⟩ := Stack.perform_pop_eq_ok.mp hperform
    have hroom : m'.sp.toInt.toNat = m.sp.toInt.toNat + 1 := hroom
    have hnonneg := h.nonneg
    have hnonneg' := h'.nonneg
    refine ⟨by omega, ?_, hitems⟩
    rcases Int.lt_or_eq_of_le h.le with hlt | heq
    · obtain ⟨w, -, hexecute⟩ := execute_pop_of_lt h hlt i
      cases hexecute.symm.trans hm'
      rfl
    · cases (execute_pop_of_eq heq i).symm.trans hm'
  error op m' f hm' := by
    obtain ⟨m₁, hexecute, -, -⟩ | ⟨g, hexecute, -⟩ := execute_stackOp h op
    · cases hexecute.symm.trans hm'
    · cases hexecute.symm.trans hm'
      rfl

theorem executeAll_push_pop {m₁ : Machine} {is js : List (Fin 16)} (h : StackFits m)
    (hpush : Exec.executeAll ((is.map .push).map StackOp.instruction) m = (m₁, .ok ()))
    (hlen : js.length ≤ is.length) :
    let pushed := (is.map m.regs.word).reverse
    ∃ m₂, Exec.executeAll ((js.map .pop).map StackOp.instruction) m₁ = (m₂, .ok ()) ∧
      m₂.sp.toInt = m.sp.toInt - is.length + js.length ∧
      m₂.stack.items = pushed.drop js.length ++ m.stack.items ∧
      m₂.regs = m.regs.putEach js (pushed.take js.length) := by
  intro pushed
  obtain ⟨m₂, r₂, hpop⟩ : ∃ m₂ r₂,
      Exec.executeAll ((js.map .pop).map StackOp.instruction) m₁ = (m₂, r₂) := ⟨_, _, rfl⟩
  have hpushed := executeAll_stackOps h (is.map .push)
  simp only [hpush] at hpushed
  obtain ⟨h₁, hstack₁, hok₁⟩ := hpushed
  have hlist : m.stack.performAll (is.map .push) = (m₁.stack, .ok ()) :=
    Prod.ext hstack₁.symm hok₁.symm
  have hpopped := executeAll_stackOps h₁ (js.map .pop)
  simp only [hpop, Stack.performAll_push_pop hlist hlen] at hpopped
  obtain ⟨h₂, hstack₂, rfl⟩ := hpopped
  refine ⟨m₂, hpop, ?_, congrArg Stack.items hstack₂, congrArg Stack.regs hstack₂⟩
  have hroom₁ : m.sp.toInt.toNat = m₁.sp.toInt.toNat + is.length := (Stack.performAll_push hlist).1
  have hroom₂ : m₂.sp.toInt.toNat = m₁.sp.toInt.toNat + js.length := congrArg Stack.room hstack₂
  have hnonneg := h.nonneg
  have hnonneg₁ := h₁.nonneg
  have hnonneg₂ := h₂.nonneg
  omega

/-- Over any memory, any row of pushes and pops does to the cells from the stack pointer on what it
does to a list, and stops before the first that fails there. Words that were pushed come back in
reverse, and as many pops take the stack pointer back to where it was. -/
theorem stack_refines_list (h : StackFits m) :
    (∀ ops : List StackOp, let r := Exec.executeAll (ops.map StackOp.instruction) m
      r.1.stack = (m.stack.performAll ops).1 ∧ r.2 = (m.stack.performAll ops).2 ∧
        r.1.PushesAndPops) ∧
    ∀ (is js : List (Fin 16)) (m₁ : Machine), js.length = is.length →
      Exec.executeAll ((is.map .push).map StackOp.instruction) m = (m₁, .ok ()) →
      (∀ k (hk : k < js.length), ∃ m₂,
        Exec.executeAll (((js.take (k + 1)).map .pop).map StackOp.instruction) m₁ =
            (m₂, .ok ()) ∧
          (is.map m.regs.word).reverse[k]? = some (m₂.regs.word js[k])) ∧
      ∃ m₂, Exec.executeAll ((js.map .pop).map StackOp.instruction) m₁ = (m₂, .ok ()) ∧
        m₂.sp = m.sp ∧ m₂.stack.items = m.stack.items ∧
        m₂.regs = m.regs.putEach js (is.map m.regs.word).reverse := by
  refine ⟨fun ops => ?_, fun is js m₁ hlen hpush => ⟨fun k hk => ?_, ?_⟩⟩
  · obtain ⟨hfits, hstack, hresult⟩ := executeAll_stackOps h ops
    exact ⟨hstack, hresult, pushesAndPops hfits⟩
  · have htake : (js.take (k + 1)).length = k + 1 := List.length_take_of_le hk
    obtain ⟨m₂, hpop, -, -, hregs⟩ := executeAll_push_pop h hpush
      (show (js.take (k + 1)).length ≤ is.length by omega)
    refine ⟨m₂, hpop, ?_⟩
    have hpushed : k < (is.map m.regs.word).reverse.length := by
      rw [List.length_reverse, List.length_map]
      omega
    have hlast : ((js.take k).length = ((is.map m.regs.word).reverse.take k).length) := by
      rw [List.length_take_of_le (Nat.le_of_lt hk), List.length_take_of_le (Nat.le_of_lt hpushed)]
    rw [hregs, htake, List.take_succ_eq_append_getElem hk,
      List.take_succ_eq_append_getElem hpushed, Registers.word_putEach_concat hlast,
      List.getElem?_eq_getElem hpushed]
  · obtain ⟨m₂, hpop, hsp, hitems, hregs⟩ := executeAll_push_pop h hpush (Nat.le_of_eq hlen)
    have hall : (is.map m.regs.word).reverse.length = js.length := by
      rw [List.length_reverse, List.length_map, hlen]
    rw [← hall, List.drop_length, List.nil_append] at hitems
    rw [← hall, List.take_length] at hregs
    exact ⟨m₂, hpop, Int64.toInt_inj.mp (by omega), hitems, hregs⟩

/-- Two pushes fill four cells from the third one down, and two pops take both words back. -/
theorem stack_refines_list_full :
    let m : Machine := { new ⟨#[9, 9, 9, 9]⟩ with
      sp := 2, regs := { r := #v[5, 6, 7, 0, 0, 0, 0, 0, 0, 0, 0, 0, 0, 0, 0, 0] } }
    ∃ m₁ m₂, Exec.executeAll [.push 1, .push 2] m = (m₁, .ok ()) ∧ m₁.stack.items = [7, 6, 9, 9] ∧
      (∀ i, ¬∃ m', Exec.execute (StackOp.push i).instruction m₁ = (m', .ok ())) ∧
      Exec.executeAll [.pop 4, .pop 1] m₁ = (m₂, .ok ()) ∧ m₂.sp = 2 ∧
      m₂.regs = m.regs.putEach [4, 1] [7, 6] := by
  intro m
  have hfits : StackFits m := ⟨by decide, by decide, by decide⟩
  obtain ⟨hrow, hreverse⟩ := stack_refines_list hfits
  obtain ⟨hstack, hok, hsteps⟩ := hrow [.push 1, .push 2]
  have hpush : Exec.executeAll [.push 1, .push 2] m = (_, .ok ()) := Prod.ext rfl hok
  obtain ⟨-, m₂, hpop, hsp, -, hregs⟩ := hreverse [1, 2] [4, 1] _ rfl hpush
  refine ⟨_, m₂, hpush, congrArg Stack.items hstack, fun i hi => ?_, hpop, hsp, hregs⟩
  exact absurd ((hsteps.push_ok_iff i).mp hi) (by decide)

end Machine

end CellMachine
