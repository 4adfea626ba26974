import CellMachine.Assembly.Assembler
import CellMachine.Proofs.Assembly.Form
import CellMachine.Proofs.Instruction
import Mathlib.Data.List.Induction

/-!
# CellMachine.Proofs.Assembly.Layout

Where the lines of a source are placed and what their cells hold, without an assembler: addresses
are found by walking the lines, and labels are known from the start.

* `addrAt`     — the address that is reached at a line.
* `labelAddr`  — the address of a label.
* `WellPlaced` — every origin lies ahead and is not too large.
* `cellsFrom`  — the cells of lines, where the addresses of labels are given.
* `Placed`     — an image that holds each line's cells at the line's address.
-/

namespace CellMachine.Assembly

/-! ## Addresses -/

/-- The address after a statement at `addr`. -/
def Statement.next (addr : Nat) : Statement → Nat
  | .origin w => w.toInt.toNat
  | .data _ => addr + 1
  | .instruction op _ => addr + op.width

def Line.next (addr : Nat) (l : Line) : Nat := l.statement.elim addr (Statement.next addr)

/-- The address after lines of which the first is at `addr`. -/
def nextAll (addr : Nat) (ls : List Line) : Nat := ls.foldl Line.next addr

/-- The address that is reached at line `i`; the first line is at address 0. -/
def addrAt (ls : List Line) (i : Nat) : Nat := nextAll 0 (ls.take i)

def labels (ls : List Line) : List String := ls.filterMap Line.label

/-- The address that is reached at the line of a label. -/
def labelAddr (ls : List Line) (key : String) : Nat :=
  addrAt ls (ls.findIdx fun l => l.label == some key)

/-- An origin lies neither behind the address that is reached nor beyond `maxOrigin`. -/
def Statement.Fits (addr : Nat) : Statement → Prop
  | .origin w => (addr : Int) ≤ w.toInt ∧ w.toInt ≤ maxOrigin
  | .data _ | .instruction .. => True

def Line.Fits (addr : Nat) (l : Line) : Prop := ∀ s, l.statement = some s → s.Fits addr

def WellPlaced (ls : List Line) : Prop := ∀ i (l : Line), ls[i]? = some l → l.Fits (addrAt ls i)

@[simp] theorem nextAll_append (addr : Nat) (ls ls' : List Line) :
    nextAll addr (ls ++ ls') = nextAll (nextAll addr ls) ls' := List.foldl_append

theorem addrAt_append {ls : List Line} {i : Nat} (h : i ≤ ls.length) (ls' : List Line) :
    addrAt (ls ++ ls') i = addrAt ls i := by
  rw [addrAt, List.take_append_of_le_length h, addrAt]

theorem addrAt_length (ls : List Line) : addrAt ls ls.length = nextAll 0 ls := by
  rw [addrAt, List.take_length]

theorem WellPlaced.of_append {ls ls' : List Line} (h : WellPlaced (ls ++ ls')) :
    WellPlaced ls := by
  intro i l hl
  have hi := (List.getElem?_eq_some_iff.mp hl).1
  rw [← addrAt_append (Nat.le_of_lt hi) ls']
  refine h i l ?_
  rw [List.getElem?_append_left hi, hl]

theorem WellPlaced.fits {ls ls' : List Line} {l : Line} (h : WellPlaced (ls ++ l :: ls')) :
    l.Fits (nextAll 0 ls) := by
  rw [← addrAt_length, ← addrAt_append (Nat.le_refl _) (l :: ls')]
  refine h _ l ?_
  rw [List.getElem?_append_right (Nat.le_refl _), Nat.sub_self]
  rfl

theorem WellPlaced.concat {ls : List Line} {l : Line} (h : WellPlaced ls)
    (hl : l.Fits (nextAll 0 ls)) : WellPlaced (ls ++ [l]) := by
  intro i k hk
  rcases Nat.lt_or_ge i ls.length with hi | hi
  · rw [List.getElem?_append_left hi] at hk
    rw [addrAt_append (Nat.le_of_lt hi)]
    exact h i k hk
  · have hlen := (List.getElem?_eq_some_iff.mp hk).1
    rw [List.length_append, List.length_singleton] at hlen
    obtain rfl : i = ls.length := by omega
    rw [List.getElem?_concat_length] at hk
    cases hk
    rw [addrAt_append (Nat.le_refl _), addrAt_length]
    exact hl

theorem mem_labels {ls : List Line} {key : String} :
    key ∈ labels ls ↔ ∃ l ∈ ls, l.label = some key := List.mem_filterMap

theorem labels_append (ls ls' : List Line) : labels (ls ++ ls') = labels ls ++ labels ls' :=
  List.filterMap_append

theorem findIdx_label_lt {ls : List Line} {key : String} :
    ls.findIdx (fun l => l.label == some key) < ls.length ↔ key ∈ labels ls := by
  simp only [List.findIdx_lt_length, beq_iff_eq, mem_labels]

/-- Lines that follow do not move a label. -/
theorem labelAddr_append {ls : List Line} {key : String} (h : key ∈ labels ls) (ls' : List Line) :
    labelAddr (ls ++ ls') key = labelAddr ls key := by
  have hlt := findIdx_label_lt.mpr h
  rw [labelAddr, List.findIdx_append, if_pos hlt, addrAt_append (Nat.le_of_lt hlt), labelAddr]

/-- A new label is at the address that was reached. -/
theorem labelAddr_concat {ls : List Line} {l : Line} {key : String} (h : key ∉ labels ls)
    (hl : l.label = some key) : labelAddr (ls ++ [l]) key = nextAll 0 ls := by
  have hge := mt findIdx_label_lt.mp h
  have hzero : [l].findIdx (fun l => l.label == some key) = 0 := by
    rw [List.findIdx_cons, hl, beq_self_eq_true]
    rfl
  rw [labelAddr, List.findIdx_append, if_neg hge, hzero, Nat.zero_add,
    addrAt_append (Nat.le_refl _), addrAt_length]

/-! ## Cells -/

/-- The word of an operand, where `σ` gives the addresses of labels. -/
def Operand.word (σ : String → Nat) : Operand → Word
  | .value w => w
  | .label key => Int64.ofNat (σ key)
  | .beforeLabel key => Int64.ofNat (σ key) - 1

def Operand.reference? : Operand → Option String
  | .value _ => none
  | .label key | .beforeLabel key => some key

def Statement.operands : Statement → List Operand
  | .origin _ => []
  | .data o => [o]
  | .instruction _ os => os

def Line.references (l : Line) : List String :=
  l.statement.elim [] fun s => s.operands.filterMap Operand.reference?

/-- An instruction has as many operands as its operation has operand cells. -/
def Statement.Complete : Statement → Prop
  | .origin _ | .data _ => True
  | .instruction op os => os.length = op.fields.length

def Line.Complete (l : Line) : Prop := ∀ s, l.statement = some s → s.Complete

theorem StatementForm.complete {words : List (List Char)} {s : Statement}
    (h : StatementForm words (some s)) : s.Complete := by
  cases h with
  | origin => trivial
  | data => trivial
  | @instruction _ texts op os hm hlen hos =>
    have h := hos.length_eq
    rw [List.length_zip, hlen, Nat.min_self] at h
    exact h.symm

theorem LineForm.complete {text : List Char} {l : Line} (h : LineForm text l) : l.Complete := by
  rintro s hs
  cases h with
  | unlabelled hcolon hform =>
    cases hs
    exact hform.complete
  | labelled ht hcolon hid hreg hform =>
    cases hs
    exact hform.complete

/-- The instruction with operands that are words. -/
def instructionOf (op : Opcode) (ws : List Word) : Instruction :=
  Instruction.ofParts op (ws.getD 0 0) (ws.getD 1 0)

/-- The cells of a statement at `addr`. -/
def Statement.cells (σ : String → Nat) (addr : Nat) : Statement → List Word
  | .origin w => List.replicate (w.toInt.toNat - addr) 0
  | .data o => [o.word σ]
  | .instruction op os => (instructionOf op (os.map (Operand.word σ))).encode

def Line.cells (σ : String → Nat) (addr : Nat) (l : Line) : List Word :=
  l.statement.elim [] (Statement.cells σ addr)

/-- The cells of lines of which the first is at `addr`. -/
def cellsFrom (σ : String → Nat) : Nat → List Line → List Word
  | _, [] => []
  | addr, l :: ls => l.cells σ addr ++ cellsFrom σ (l.next addr) ls

theorem cellsFrom_append (σ : String → Nat) (addr : Nat) (ls ls' : List Line) :
    cellsFrom σ addr (ls ++ ls') = cellsFrom σ addr ls ++ cellsFrom σ (nextAll addr ls) ls' := by
  induction ls generalizing addr with
  | nil => rfl
  | cons l ls ih =>
    rw [List.cons_append, cellsFrom, ih, cellsFrom, List.append_assoc]
    rfl

theorem Statement.next_eq (σ : String → Nat) {addr : Nat} {s : Statement} (hf : s.Fits addr) :
    s.next addr = addr + (s.cells σ addr).length := by
  cases s with
  | origin w =>
    have hf : (addr : Int) ≤ w.toInt := hf.1
    rw [Statement.next, Statement.cells, List.length_replicate]
    omega
  | data o => rfl
  | instruction op os =>
    rw [Statement.next, Statement.cells, Instruction.length_encode, Instruction.width,
      instructionOf, Instruction.opcode_ofParts]

theorem Line.next_eq (σ : String → Nat) {addr : Nat} {l : Line} (hf : l.Fits addr) :
    l.next addr = addr + (l.cells σ addr).length := by
  unfold Line.next Line.cells
  cases h : l.statement with
  | none => rfl
  | some s => exact Statement.next_eq σ (hf s h)

theorem length_cellsFrom {σ : String → Nat} {ls : List Line} (h : WellPlaced ls) :
    (cellsFrom σ 0 ls).length = nextAll 0 ls := by
  induction ls using List.reverseRecOn with
  | nil => rfl
  | append_singleton ls l ih =>
    rw [cellsFrom_append, List.length_append, ih h.of_append, nextAll_append]
    show _ = l.next _
    rw [Line.next_eq σ h.fits, cellsFrom, cellsFrom, List.append_nil]

theorem cellsFrom_at {σ : String → Nat} {ls : List Line} {i : Nat} {l : Line} (h : WellPlaced ls)
    (hl : ls[i]? = some l) :
    ∃ front back, cellsFrom σ 0 ls = front ++ (l.cells σ (addrAt ls i) ++ back) ∧
      front.length = addrAt ls i := by
  obtain ⟨hi, rfl⟩ := List.getElem?_eq_some_iff.mp hl
  have hsplit : ls = ls.take i ++ ls[i] :: ls.drop (i + 1) := by simp
  have hfront : WellPlaced (ls.take i) := by
    rw [hsplit] at h
    exact h.of_append
  refine ⟨cellsFrom σ 0 (ls.take i), cellsFrom σ (ls[i].next (addrAt ls i)) (ls.drop (i + 1)),
    ?_, length_cellsFrom hfront⟩
  conv_lhs => rw [hsplit]
  rw [cellsFrom_append, cellsFrom]
  rfl

/-! ## Images -/

/-- The lines are those of a source that makes an image: origins are in range, no label is defined
twice, and every label that is referred to is defined. -/
structure WellFormed (ls : List Line) : Prop where
  placed : WellPlaced ls
  unique : (labels ls).Nodup
  defined : ∀ l ∈ ls, ∀ key ∈ l.references, key ∈ labels ls

/-- An image holds what each of its lines asks for at the address of the line. -/
structure Placed (ls : List Line) (image : Array Word) : Prop where
  size : image.size = addrAt ls ls.length
  instruction : ∀ i l op os, ls[i]? = some l → l.statement = some (.instruction op os) →
    (image.extract (addrAt ls i) (addrAt ls i + op.width)).toList =
      (instructionOf op (os.map (Operand.word (labelAddr ls)))).encode
  data : ∀ i l o, ls[i]? = some l → l.statement = some (.data o) →
    image[addrAt ls i]? = some (o.word (labelAddr ls))
  skipped : ∀ i l w, ls[i]? = some l → l.statement = some (.origin w) →
    ∀ addr, addrAt ls i ≤ addr → addr < w.toInt.toNat → image[addr]? = some 0

theorem Placed.of_cells {ls : List Line} {image : Array Word} (h : WellPlaced ls)
    (himage : image.toList = cellsFrom (labelAddr ls) 0 ls) : Placed ls image where
  size := by
    rw [← Array.length_toList, himage, length_cellsFrom h, addrAt_length]
  instruction := by
    intro i l op os hl hs
    obtain ⟨front, back, hcells, hlen⟩ := cellsFrom_at (σ := labelAddr ls) h hl
    have hwidth : l.cells (labelAddr ls) (addrAt ls i) =
        (instructionOf op (os.map (Operand.word (labelAddr ls)))).encode := by
      rw [Line.cells, hs]
      rfl
    have hop : (instructionOf op (os.map (Operand.word (labelAddr ls)))).encode.length =
        op.width := by
      rw [Instruction.length_encode, Instruction.width, instructionOf, Instruction.opcode_ofParts]
    rw [Array.toList_extract, List.extract_eq_take_drop, himage, hcells, hwidth, ← hlen,
      List.drop_left, Nat.add_sub_cancel_left, ← hop, List.take_left]
  data := by
    intro i l o hl hs
    obtain ⟨front, back, hcells, hlen⟩ := cellsFrom_at (σ := labelAddr ls) h hl
    rw [← Array.getElem?_toList, himage, hcells, Line.cells, hs, ← hlen,
      List.getElem?_append_right (Nat.le_refl _), Nat.sub_self]
    rfl
  skipped := by
    intro i l w hl hs addr hge hlt
    obtain ⟨front, back, hcells, hlen⟩ := cellsFrom_at (σ := labelAddr ls) h hl
    have hcell : l.cells (labelAddr ls) (addrAt ls i) =
        List.replicate (w.toInt.toNat - addrAt ls i) 0 := by
      rw [Line.cells, hs]
      rfl
    rw [← Array.getElem?_toList, himage, hcells, hcell, List.getElem?_append_right (by omega),
      List.getElem?_append_left (by rw [List.length_replicate]; omega),
      List.getElem?_replicate, if_pos (by omega)]

end CellMachine.Assembly
