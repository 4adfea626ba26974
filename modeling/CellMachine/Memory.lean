import CellMachine.Word

/-!
# CellMachine.Memory

A block of cells of fixed size that holds the program, its data and the stack. Addresses are words;
those outside the block are refused.
-/

namespace CellMachine

structure Memory where
  cells : Array Word
  deriving DecidableEq, Repr

inductive MemoryError where
  | addressOutOfRange (addr : Word) (size : Nat)
  | imageTooLarge (size available : Nat)
  deriving DecidableEq, Repr

def MemoryError.message : MemoryError → String
  | .addressOutOfRange addr size => s!"memory address {addr} out of range (0-{size - 1})"
  | .imageTooLarge size available => s!"image size {size} exceeds available space {available}"

namespace Memory

abbrev size (m : Memory) : Nat := m.cells.size

def zeros (size : Nat) : Memory := ⟨Array.replicate size 0⟩

def index (m : Memory) (addr : Word) : Except MemoryError (Fin m.size) :=
  match addr.place? m.size with
  | some i => .ok i
  | none => .error (.addressOutOfRange addr m.size)

def read (m : Memory) (addr : Word) : Except MemoryError Word :=
  (m.index addr).map (m.cells[·])

def get? (m : Memory) (addr : Word) : Option Word :=
  (addr.place? m.size).map (m.cells[·])

def put (m : Memory) (i : Nat) (w : Word) : Memory := ⟨m.cells.setIfInBounds i w⟩

@[simp] theorem size_put (m : Memory) (i : Nat) (w : Word) : (m.put i w).size = m.size := by
  exact Array.size_setIfInBounds

def write (m : Memory) (addr w : Word) : Except MemoryError Memory :=
  (m.index addr).map fun i => m.put i w

/-- The cells from position `start`, at most `count` of them. -/
def slice (m : Memory) (start count : Nat) : List Word :=
  (m.cells.extract start (start + count)).toList

def window (m : Memory) (addr : Word) (count : Nat) : Except MemoryError (List Word) :=
  (m.index addr).map fun i => m.slice i count

def clear (m : Memory) : Memory := zeros m.size

@[simp] theorem size_clear (m : Memory) : m.clear.size = m.size := Array.size_replicate

/-- The block with `image` copied to position `start` and after it. -/
def load (m : Memory) (start : Nat) (image : Array Word) : Except MemoryError Memory :=
  let available := m.size - start
  if image.size ≤ available then
    .ok ⟨m.cells.extract 0 start ++ image ++ m.cells.extract (start + image.size) m.size⟩
  else .error (.imageTooLarge image.size available)

theorem size_of_load {m m' : Memory} {start : Nat} {image : Array Word}
    (h : m.load start image = .ok m') (hs : start ≤ m.size) : m'.size = m.size := by
  simp only [load] at h
  split at h
  · rename_i himage
    cases h
    simp only [size, Array.size_append, Array.size_extract] at himage hs ⊢
    omega
  · cases h

/-- A block of at least `size` cells with `image` at its start and zeros after it. -/
def ofImage (size : Nat) (image : Array Word) : Memory :=
  ⟨image ++ Array.replicate (size - image.size) 0⟩

/-- Positions and cells from `start`, at most `count` of them. -/
def dump (m : Memory) (start count : Nat) : List (Nat × Word) :=
  (m.slice start count).mapIdx fun i w => (start + i, w)

def describe (m : Memory) : String :=
  let nonZero := m.cells.countP (· != 0)
  s!"Memory \x7b non_zero_cells: {nonZero}, total_cells: {m.size} \x7d"

end Memory

end CellMachine
