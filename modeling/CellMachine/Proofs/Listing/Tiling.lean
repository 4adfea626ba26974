import CellMachine.Proofs.Instruction
import CellMachine.Proofs.Listing
import Mathlib.Algebra.GroupWithZero.Nat

/-!
# CellMachine.Proofs.Listing.Tiling

A listing shows each cell of a row on one of its lines.

* `Listing.Covers`                   — lines that stand one behind the other from the start of a row
  of cells to its end.
* `Listing.linesFrom_encode`         — the lines of encoded instructions are the instructions.
* `Listing.listing_shows_every_cell` — both for whole listings.
-/

namespace CellMachine.Listing

/-! ## The first line -/

/-- What an instruction is followed by is not taken for a part of it. -/
theorem first_encode_append (i : Instruction) (rest : List Word) :
    first (i.encode ++ rest) = (i.text, i.width) := by
  rw [first, Instruction.decode_of_prefix (List.prefix_append i.encode rest)]

theorem first_width_le_three (cells : List Word) : (first cells).2 ≤ 3 := by
  unfold first
  split
  · exact Opcode.width_le_three _
  · show 1 ≤ 3
    decide

/-- An instruction that lacks cells is listed as data, so no line goes beyond the last cell. -/
theorem first_width_le {cells : List Word} (h : cells ≠ []) : (first cells).2 ≤ cells.length := by
  unfold first
  split
  · rename_i i hi
    rw [← i.length_encode, ← Instruction.encode_of_decode hi]
    exact List.length_take_le' _ _
  · exact List.length_pos_iff.mpr h

theorem width_lineAt {cells : List Word} {addr : Nat} (h : addr < cells.length) :
    (lineAt cells addr).width = (first (cells.drop addr)).2 := by
  have hne : cells.drop addr ≠ [] := by
    rw [ne_eq, List.drop_eq_nil_iff]
    omega
  show ((cells.drop addr).take _).length = _
  rw [List.length_take, Nat.min_eq_left (first_width_le hne)]

/-! ## Lines that cover a row -/

/-- A line of `cells`: one to three cells, all of which exist, with the text of what stands at its
address. -/
structure LineOf (cells : List Word) (line : Line) : Prop where
  first_eq : first (cells.drop line.addr) = (line.text, line.width)
  cells_eq : (cells.drop line.addr).take line.width = line.cells
  width_pos : 1 ≤ line.width
  width_le : line.width ≤ 3
  end_le : line.addr + line.width ≤ cells.length

/-- Lines of which the first is at `addr`, each of the others is behind the one before it, and the
last one ends where the cells end. -/
inductive CoversFrom (cells : List Word) : Nat → List Line → Prop where
  | done : CoversFrom cells cells.length []
  | line {line : Line} {lines : List Line} (h : LineOf cells line)
      (hlines : CoversFrom cells (line.addr + line.width) lines) :
      CoversFrom cells line.addr (line :: lines)

theorem lineOf_lineAt {cells : List Word} {addr : Nat} (h : addr < cells.length) :
    LineOf cells (lineAt cells addr) := by
  have hwidth := width_lineAt h
  have hne : cells.drop addr ≠ [] := by
    rw [ne_eq, List.drop_eq_nil_iff]
    omega
  have hle := first_width_le hne
  rw [List.length_drop] at hle
  refine ⟨?_, ?_, ?_, ?_, ?_⟩
  · rw [hwidth]
    rfl
  · rw [hwidth]
    rfl
  · rw [hwidth]
    exact first_width_pos _
  · rw [hwidth]
    exact first_width_le_three _
  · rw [hwidth]
    show addr + _ ≤ _
    omega

/-- By induction on the cells that are left: a line takes at least one of them, and none that does
not exist. -/
theorem coversFrom_linesFrom {cells : List Word} {addr : Nat} (h : addr ≤ cells.length) :
    CoversFrom cells addr (linesFrom addr (cells.drop addr)) := by
  rcases Nat.eq_or_lt_of_le h with rfl | hlt
  · rw [linesFrom_drop_of_le (Nat.le_refl _)]
    exact .done
  · have hline := lineOf_lineAt hlt
    have hpos := hline.width_pos
    have hend := hline.end_le
    rw [linesFrom_drop hlt]
    refine CoversFrom.line hline ?_
    rw [← width_lineAt hlt]
    exact coversFrom_linesFrom hend
termination_by cells.length - addr
decreasing_by
  show cells.length - (addr + _) < _
  omega

/-- Lines that cover a row of cells. -/
structure Covers (cells : List Word) (lines : List Line) : Prop where
  lines_of : ∀ line ∈ lines, LineOf cells line
  eq_nil_iff : lines = [] ↔ cells = []
  first : ∀ line, lines.head? = some line → line.addr = 0
  next : ∀ k line line', lines[k]? = some line → lines[k + 1]? = some line' →
    line'.addr = line.addr + line.width
  last : ∀ line, lines.getLast? = some line → line.addr + line.width = cells.length

namespace CoversFrom

variable {cells : List Word} {addr : Nat} {lines : List Line}

theorem lineOf (h : CoversFrom cells addr lines) : ∀ line ∈ lines, LineOf cells line := by
  induction h with
  | done => exact nofun
  | line h _ ih => exact List.forall_mem_cons.mpr ⟨h, ih⟩

theorem eq_length (h : CoversFrom cells addr []) : addr = cells.length := by
  cases h
  rfl

theorem addr_head (h : CoversFrom cells addr lines) :
    ∀ line, lines.head? = some line → line.addr = addr := by
  cases h with
  | done => exact nofun
  | line h _ =>
    rintro _ ⟨⟩
    rfl

theorem next (h : CoversFrom cells addr lines) :
    ∀ k line line', lines[k]? = some line → lines[k + 1]? = some line' →
      line'.addr = line.addr + line.width := by
  induction h with
  | done => exact nofun
  | line h hlines ih =>
    intro k line line' hline hline'
    cases k with
    | zero =>
      cases hline
      rw [List.getElem?_cons_succ, ← List.head?_eq_getElem?] at hline'
      exact hlines.addr_head _ hline'
    | succ k => exact ih k line line' hline hline'

theorem last (h : CoversFrom cells addr lines) :
    ∀ line, lines.getLast? = some line → line.addr + line.width = cells.length := by
  induction h with
  | done => exact nofun
  | @line line lines h hlines ih =>
    intro last hlast
    cases lines with
    | nil =>
      cases hlast
      exact hlines.eq_length
    | cons next lines =>
      rw [List.getLast?_cons_cons] at hlast
      exact ih last hlast

end CoversFrom

theorem covers_listing (cells : List Word) : Covers cells (listing cells) := by
  have hcovers : CoversFrom cells 0 (listing cells) := coversFrom_linesFrom (Nat.zero_le _)
  refine ⟨hcovers.lineOf, ?_, hcovers.addr_head, hcovers.next, hcovers.last⟩
  cases cells with
  | nil =>
    rw [listing, linesFrom]
    exact ⟨fun _ => rfl, fun _ => rfl⟩
  | cons c cells =>
    rw [listing, linesFrom]
    exact iff_of_false (List.cons_ne_nil _ _) (List.cons_ne_nil _ _)

/-! ## Programs -/

/-- By induction on the instructions: the first line takes the cells of the first one, and the walk
goes on at those of the second. -/
theorem linesFrom_encode (addr : Nat) (is : List Instruction) :
    linesFrom addr (is.flatMap Instruction.encode) =
      is.mapIdx fun k i => ⟨addr + ((is.take k).map Instruction.width).sum, i.encode, i.text⟩ := by
  induction is generalizing addr with
  | nil => rw [List.flatMap_nil, linesFrom, List.mapIdx_nil]
  | cons i is ih =>
    have hfirst := first_encode_append i (is.flatMap Instruction.encode)
    have hne : i.encode ++ is.flatMap Instruction.encode ≠ [] :=
      List.append_ne_nil_of_left_ne_nil (List.cons_ne_nil _ _) _
    rw [List.flatMap_cons, linesFrom_of_ne_nil hne, hfirst, List.mapIdx_cons, ← i.length_encode,
      List.take_left, List.drop_left, ih]
    simp only [List.take_succ_cons, List.map_cons, List.sum_cons, List.take_zero, List.map_nil,
      List.sum_nil, Nat.add_zero, Nat.add_assoc, i.length_encode]

/-- The listing of encoded instructions has one line for each of them, in their order, with its
address, its width and its text. The lines of any row of cells follow each other from its start to
its end, and show one to three of its cells each. -/
theorem listing_shows_every_cell :
    (∀ is : List Instruction,
      listing (is.flatMap Instruction.encode) =
        is.mapIdx (fun k i => ⟨((is.take k).map Instruction.width).sum, i.encode, i.text⟩) ∧
      (listing (is.flatMap Instruction.encode)).map Line.width = is.map Instruction.width) ∧
    ∀ cells : List Word, Covers cells (listing cells) := by
  refine ⟨fun is => ?_, covers_listing⟩
  have hlines := linesFrom_encode 0 is
  simp only [Nat.zero_add] at hlines
  refine ⟨hlines, List.ext_getElem? fun k => ?_⟩
  rw [listing, hlines, List.getElem?_map, List.getElem?_mapIdx, List.getElem?_map, Option.map_map]
  exact congrArg (Option.map · _) (funext fun i => i.length_encode)

end CellMachine.Listing
