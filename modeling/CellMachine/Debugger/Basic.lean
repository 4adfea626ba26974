import CellMachine.Listing
import CellMachine.Machine.Run

/-!
# CellMachine.Debugger.Basic

A debugger: a machine with breakpoints and a line of status.

* `Debugger.step`, `Debugger.tick` — single steps, and the steps of continuous execution.
* `Debugger.reset`                 — the program started afresh.
* `Debugger.window`                — the listing around the next instruction.
-/

namespace CellMachine

inductive Notice where
  | ready
  | stopped (status : Status)
  | executed (addr : Word) (i : Instruction)
  | skipped (addr cell : Word)
  | failed (error : Fault)
  | running
  | finished (cycles : UInt64)
  | reached (breakpoint : Word)
  | removed (breakpoint : Word)
  | inserted (breakpoint : Word)
  | wasReset
  | resetFailed (error : MemoryError)
  deriving DecidableEq

def Notice.message : Notice → String
  | .ready => "Ready. Press 's' to step, 'r' to run, 'q' to quit."
  | .stopped status => s!"CPU stopped: {status.name}"
  | .executed addr i => "PC=" ++ Text.zeroPad 4 addr.toInt ++ ": " ++ i.text
  | .skipped addr cell =>
    "PC=" ++ Text.zeroPad 4 addr.toInt ++ s!": skipped unknown opcode {cell}"
  | .failed error => s!"Error: {error.message}"
  | .running => "Running..."
  | .finished cycles => s!"Stopped after {cycles} cycles"
  | .reached addr => s!"Breakpoint at PC={addr}"
  | .removed addr => s!"Removed breakpoint at PC={addr}"
  | .inserted addr => s!"Set breakpoint at PC={addr}"
  | .wasReset => "Reset. Ready."
  | .resetFailed error => s!"Reset failed: {error.message}"

structure Debugger where
  machine : Machine
  /-- What `reset` loads. -/
  program : Array Word
  /-- Opcode addresses, in increasing order. -/
  breakpoints : List Word := []
  /-- Whether `tick` executes anything. -/
  running : Bool := false
  notice : Notice := .ready
  scroll : Nat := 0
  deriving DecidableEq

namespace Debugger

/-- A debugger over a block that holds `program`, with at least `size` cells. -/
def new (size : Nat) (program : Array Word) (config : Config) : Debugger :=
  { machine := .new (.ofImage size program) config, program }

def next (d : Debugger) : Word := d.machine.next

def step (d : Debugger) : Debugger :=
  if d.machine.isRunning then
    let addr := d.next
    match d.machine.step with
    | (machine, .ok (some i)) => { d with machine, notice := .executed addr i }
    | (machine, .ok none) => { d with machine, notice := .skipped addr machine.inst }
    | (machine, .error e) => { d with machine, notice := .failed e, running := false }
  else { d with notice := .stopped d.machine.status, running := false }

def run (d : Debugger) : Debugger := { d with running := true, notice := .running }

/-- One step of continuous execution; it ends where the machine has stopped and before the
instruction at a breakpoint. -/
def tick (d : Debugger) : Debugger :=
  if !d.running then d
  else if !d.machine.isRunning then
    { d with running := false, notice := .finished d.machine.cycles }
  else if d.breakpoints.contains d.next then
    { d with running := false, notice := .reached d.next }
  else d.step

/-- A list in increasing order with one more element, if it is new. -/
def insertSorted (addr : Word) : List Word → List Word
  | [] => [addr]
  | a :: rest =>
    if addr < a then addr :: a :: rest
    else if addr = a then a :: rest
    else a :: insertSorted addr rest

def addBreakpoint (d : Debugger) (addr : Word) : Debugger :=
  { d with breakpoints := insertSorted addr d.breakpoints }

def toggleBreakpoint (d : Debugger) : Debugger :=
  if d.breakpoints.contains d.next then
    { d with
      breakpoints := d.breakpoints.filter (· != d.next)
      notice := .removed d.next }
  else { d.addBreakpoint d.next with notice := .inserted d.next }

def reset (d : Debugger) : Debugger :=
  let machine := { d.machine with out := { d.machine.out with text := "" } }
  match machine.reload d.program with
  | (machine, .ok ()) => { d with machine, running := false, notice := .wasReset }
  | (machine, .error e) => { d with machine, running := false, notice := .resetFailed e }

structure ViewLine where
  addr : Nat
  text : String
  isNext : Bool
  deriving DecidableEq, Repr

/-- The listing of memory with a line at the next address, also where that address is inside an
instruction of the listing; first the lines before the next address, then the others. -/
def listingAround (d : Debugger) : List Listing.Line × List Listing.Line :=
  let cells := d.machine.mem.cells.toList
  let next := d.next.toInt
  let (before, after) := (listing cells).span fun line => (line.addr : Int) < next
  match after with
  | [] => (before, [])
  | line :: _ =>
    if (line.addr : Int) = next ∨ next < 0 then (before, after)
    else
      let rest := cells.drop next.toNat
      let (text, width) := Listing.first rest
      (before, ⟨next.toNat, rest.take width, text⟩ :: after)

/-- At most `count` lines of the listing, the next instruction in the middle if there is room. -/
def window (d : Debugger) (count : Nat) : List ViewLine :=
  let (before, after) := d.listingAround
  let lines := ((before ++ after).drop (before.length - count / 2)).take count
  lines.map fun line => ⟨line.addr, line.text, (line.addr : Int) == d.next.toInt⟩

end Debugger

end CellMachine
