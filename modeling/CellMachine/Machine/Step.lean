import CellMachine.Machine.Execute

/-!
# CellMachine.Machine.Step

One step of a machine.

* `Exec.fetch`   — read and decode the instruction at the program counter.
* `Exec.attempt` — one instruction from fetch to trace.
* `Machine.step` — an attempt with its effect on the cycle counter and the run state.
-/

namespace CellMachine

namespace Exec

/-- The instruction at the start of the cells that were fetched; `none` is a cell passed over. -/
def decoded (m : Machine) (cells : List Word) : Except Fault (Option Instruction) :=
  match Instruction.decode cells with
  | .ok i => .ok (some i)
  | .error (.invalidOpcode cell) =>
    match m.config.unknownOpcode with
    | .fault => .error (.unknownOpcode cell m.pc)
    | .ignore => .ok none
  | .error (.truncated _ available) =>
    .error (.memory (.addressOutOfRange (m.pc + Int64.ofNat available) m.mem.size))
  | .error .empty => .error (.memory (.addressOutOfRange m.pc m.mem.size))

/-- Reads the cells at the program counter and decodes them. A fetch inside memory keeps the three
cells that it reads, zeros past the end. -/
def fetch : Exec (Option Instruction) := do
  let m ← machine
  let inst ← load m.pc
  perform (.latch inst ((m.mem.get? (m.pc + 1)).getD 0) ((m.mem.get? (m.pc + 2)).getD 0))
  let cells ← read fun m => (m.mem.window m.pc 3).mapError .memory
  read (decoded · cells)

def trace : Exec Unit := do
  let m ← machine
  print (m.regs.line ++ "\n")

/-- Fetches, carries out and traces the instruction at the program counter. -/
def attempt : Exec (Option Instruction) := do
  let i ← fetch
  i.elim (return) execute
  let m ← machine
  if m.config.debug then trace
  return i

end Exec

namespace Machine

def trace (m : Machine) : Machine × Except Fault Unit := Exec.trace m

def advance (m : Machine) : Machine := { m with pc := m.next }

/-- The machine after a cycle in which `i` was carried out, or a cell passed over. -/
def completed (m : Machine) (i : Option Instruction) : Machine :=
  { m with cycles := m.cycles + 1, lastInstr := i }

def faulted (m : Machine) (addr : Word) : Machine := { m with pc := addr, status := .faulted }

/-- One step: the instruction carried out, or `none` for a cell passed over. A fault leaves the
program counter on the opcode cell. -/
def step (m : Machine) : Machine × Except Fault (Option Instruction) :=
  if m.status = .running then
    match Exec.attempt m.advance with
    | (m', .ok i) => (m'.completed i, .ok i)
    | (m', .error f) => (m'.faulted m.next, .error f)
  else (m, .error (.notRunning m.status))

theorem step_of_ok {m m' : Machine} {i : Option Instruction} (hr : m.status = .running)
    (h : Exec.attempt m.advance = (m', .ok i)) : m.step = (m'.completed i, .ok i) := by
  simp [step, hr, h]

theorem step_of_error {m m' : Machine} {f : Fault} (hr : m.status = .running)
    (h : Exec.attempt m.advance = (m', .error f)) : m.step = (m'.faulted m.next, .error f) := by
  simp [step, hr, h]

theorem step_of_not_running {m : Machine} (hr : m.status ≠ .running) :
    m.step = (m, .error (.notRunning m.status)) := by
  simp [step, hr]

theorem attempt_of_step_ok {m m' : Machine} {i : Option Instruction} (h : m.step = (m', .ok i)) :
    m.status = .running ∧ ∃ m₁, Exec.attempt m.advance = (m₁, .ok i) ∧ m' = m₁.completed i := by
  by_cases hr : m.status = .running
  · cases ha : Exec.attempt m.advance with
    | mk m₁ r =>
      cases r with
      | ok j =>
        rw [step_of_ok hr ha] at h
        cases h
        exact ⟨hr, m₁, rfl, rfl⟩
      | error f =>
        rw [step_of_error hr ha] at h
        cases h
  · rw [step_of_not_running hr] at h
    cases h

end Machine

end CellMachine
