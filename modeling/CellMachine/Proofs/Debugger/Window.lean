import CellMachine.Debugger.Basic
import CellMachine.Proofs.Listing
import CellMachine.Proofs.Word
import Mathlib.Data.List.TakeDrop
import Mathlib.Data.List.TakeWhile

/-!
# CellMachine.Proofs.Debugger.Window

The listing that a debugger shows around the next instruction.

* `Debugger.NextInLastLine`    — the next address is inside the last instruction of the listing.
* `Debugger.Around`            — the lines before the next address, and those from it on.
* `Debugger.window_marks_next` — what is shown, and where the next instruction is not among it.
-/

namespace CellMachine.Debugger

open Listing (Line lineAt)

variable {d : Debugger} {before after : List Line} {count : Nat}

def cells (d : Debugger) : List Word := d.machine.mem.cells.toList

/-- No line of the listing starts at the next address or behind it. If the address is in memory, it
is behind the first cell of the last instruction. -/
def NextInLastLine (d : Debugger) : Prop :=
  ∀ line ∈ listing d.cells, (line.addr : Int) < d.next.toInt

instance (d : Debugger) : Decidable d.NextInLastLine := inferInstanceAs (Decidable (∀ _ ∈ _, _))

/-- The line at the next address, whether or not the listing has one there. -/
def nextLine (d : Debugger) : Line := lineAt d.cells d.next.toInt.toNat

/-! ## The lines -/

/-- Lines before the next address, and lines from it on. There are no others but where the listing
ends before the address. -/
structure Around (d : Debugger) (before after : List Line) : Prop where
  pairwise : (before ++ after).Pairwise (·.addr < ·.addr)
  lt : ∀ line ∈ before, (line.addr : Int) < d.next.toInt
  after : if d.NextInLastLine then after = [] else ∃ rest, after = d.nextLine :: rest

theorem le_addr_of_mem_dropWhile {lines : List Line} {addr : Int} {line : Line}
    (h : lines.Pairwise (·.addr < ·.addr))
    (hline : line ∈ lines.dropWhile fun line => (line.addr : Int) < addr) :
    addr ≤ line.addr := by
  induction h with
  | nil => cases hline
  | @cons first rest hfirst _ ih =>
    rw [List.dropWhile_cons] at hline
    split at hline
    · exact ih hline
    · rename_i hge
      rw [decide_eq_true_eq, Int.not_lt] at hge
      rcases List.mem_cons.mp hline with rfl | hline
      · exact hge
      · have hlt := hfirst line hline
        omega

/-- Lines in the order of their addresses, cut at an address. -/
theorem of_span {lines : List Line} {addr : Int} (h : lines.Pairwise (·.addr < ·.addr))
    (hspan : lines.span (fun line => (line.addr : Int) < addr) = (before, after)) :
    lines = before ++ after ∧ (∀ line ∈ before, (line.addr : Int) < addr) ∧
      ∀ line ∈ after, addr ≤ line.addr := by
  rw [List.span_eq_takeWhile_dropWhile] at hspan
  obtain ⟨rfl, rfl⟩ := Prod.mk.inj hspan
  refine ⟨List.takeWhile_append_dropWhile.symm, fun line hline => ?_,
    fun line hline => le_addr_of_mem_dropWhile h hline⟩
  have htake := List.mem_takeWhile_imp hline
  exact of_decide_eq_true htake

/-- The listing is cut at the next address. A line is put in where it has none there, but only in
front of another one. -/
theorem around_listingAround (hnext : d.next.IsPlace d.machine.mem.size) :
    d.Around d.listingAround.1 d.listingAround.2 := by
  obtain ⟨hnonneg, -⟩ := hnext
  obtain ⟨before, after, hspan⟩ : ∃ before after, (listing d.cells).span
      (fun line => (line.addr : Int) < d.next.toInt) = (before, after) := ⟨_, _, rfl⟩
  have hsorted := Listing.pairwise_listing d.cells
  obtain ⟨hsplit, hlt, hge⟩ := of_span hsorted hspan
  rw [hsplit] at hsorted
  simp only [listingAround, show (listing d.machine.mem.cells.toList).span _ = _ from hspan]
  cases after with
  | nil =>
    have hlast : d.NextInLastLine := by rwa [NextInLastLine, hsplit, List.append_nil]
    exact ⟨hsorted, hlt, by rw [if_pos hlast]⟩
  | cons line rest =>
    have hmem : line ∈ listing d.cells := by
      rw [hsplit]
      exact List.mem_append_right _ List.mem_cons_self
    have hle := hge line List.mem_cons_self
    have hlast : ¬d.NextInLastLine := fun hlast => absurd (hlast line hmem) (Int.not_lt.mpr hle)
    dsimp only
    split
    · rename_i haddr
      have hmem : line ∈ Listing.linesFrom 0 (d.cells.drop 0) := hmem
      obtain ⟨-, -, hline⟩ := Listing.eq_lineAt_of_mem hmem
      have hplace : line.addr = d.next.toInt.toNat := by omega
      refine ⟨hsorted, hlt, ?_⟩
      rw [if_neg hlast, hline, hplace]
      exact ⟨rest, rfl⟩
    · rename_i haddr
      refine ⟨?_, hlt, ?_⟩
      · obtain ⟨hbefore, hafter, hcross⟩ := List.pairwise_append.mp hsorted
        have hbehind : ∀ other ∈ line :: rest, d.next.toInt.toNat < other.addr := by
          refine List.forall_mem_cons.mpr ⟨by omega, fun other hother => ?_⟩
          have hother := (List.pairwise_cons.mp hafter).1 other hother
          omega
        refine List.pairwise_append.mpr ⟨hbefore, .cons hbehind hafter, fun first hfirst => ?_⟩
        have hfirst' := hlt first hfirst
        exact List.forall_mem_cons.mpr
          ⟨show first.addr < d.next.toInt.toNat by omega, hcross first hfirst⟩
      · rw [if_neg hlast]
        exact ⟨line :: rest, rfl⟩

/-! ## The window -/

def view (d : Debugger) (line : Line) : ViewLine :=
  ⟨line.addr, line.text, (line.addr : Int) == d.next.toInt⟩

theorem filter_isNext_map_view {lines : List Line}
    (h : ∀ line ∈ lines, (line.addr : Int) ≠ d.next.toInt) :
    (lines.map d.view).filter (·.isNext) = [] := by
  rw [List.filter_eq_nil_iff, List.forall_mem_map]
  intro line hline
  exact fun hview => h line hline (beq_iff_eq.mp hview)

/-- At most half of the room is for the lines before the next address. -/
theorem window_eq (d : Debugger) (count : Nat) :
    ∃ skipped, d.listingAround.1.length - skipped ≤ count / 2 ∧
      d.window count = (d.listingAround.1.drop skipped ++
        d.listingAround.2.take (count - (d.listingAround.1.length - skipped))).map d.view := by
  refine ⟨d.listingAround.1.length - count / 2, by omega, ?_⟩
  have hwindow : d.window count = (((d.listingAround.1 ++ d.listingAround.2).drop
      (d.listingAround.1.length - count / 2)).take count).map d.view := rfl
  rw [hwindow, List.drop_append_of_le_length (Nat.sub_le _ _), List.take_append, List.length_drop,
    List.take_of_length_le]
  rw [List.length_drop]
  omega

theorem view_nextLine (h : 0 ≤ d.next.toInt) :
    d.view d.nextLine =
      ⟨d.next.toInt.toNat, (Listing.first (d.cells.drop d.next.toInt.toNat)).1, true⟩ := by
  have hnext : ((d.nextLine.addr : Int) == d.next.toInt) = true :=
    beq_iff_eq.mpr (Int.toNat_of_nonneg h)
  rw [view, hnext]
  rfl

/-- The line at the next address is shown as the next one, and no other is. -/
theorem Around.filter_isNext {room : Nat} (h : d.Around before after) (hnext : 0 ≤ d.next.toInt)
    (hroom : 0 < room) (skipped : Nat) :
    ((before.drop skipped ++ after.take room).map d.view).filter (·.isNext) =
      if d.NextInLastLine then [] else [d.view d.nextLine] := by
  obtain ⟨hpairwise, hlt, hafter⟩ := h
  have hbefore : ((before.drop skipped).map d.view).filter (·.isNext) = [] :=
    filter_isNext_map_view fun line hline => Int.ne_of_lt (hlt line (List.mem_of_mem_drop hline))
  rw [List.map_append, List.filter_append, hbefore, List.nil_append]
  split at hafter
  · rw [hafter, if_pos ‹_›, List.take_nil]
    rfl
  · obtain ⟨rest, rfl⟩ := hafter
    obtain ⟨n, rfl⟩ := Nat.exists_eq_add_one_of_ne_zero (Nat.ne_of_gt hroom)
    have hrest : ((rest.take n).map d.view).filter (·.isNext) = [] := by
      refine filter_isNext_map_view fun line hline => ?_
      have hlt := (List.pairwise_cons.mp (List.pairwise_append.mp hpairwise).2.1).1 line
        (List.mem_of_mem_take hline)
      have haddr : d.nextLine.addr = d.next.toInt.toNat := rfl
      omega
    rw [if_neg ‹_›, List.take_succ_cons, List.map_cons, List.filter_cons_of_pos, hrest]
    rw [view_nextLine hnext]

/-- The window has at most as many lines as there is room for, in the order of their addresses. The
line at the next address is among them and is the only one that is marked; but where the next
address is inside the last instruction of the listing, no line is marked. -/
theorem window_marks_next (hcount : 1 ≤ count) (hnext : d.next.IsPlace d.machine.mem.size) :
    (d.window count).length ≤ count ∧ (d.window count).Pairwise (·.addr < ·.addr) ∧
      (d.window count).filter (·.isNext) =
        if d.NextInLastLine then []
        else [⟨d.next.toInt.toNat, (Listing.first (d.cells.drop d.next.toInt.toNat)).1, true⟩] := by
  have haround := around_listingAround hnext
  obtain ⟨skipped, hskipped, hwindow⟩ := d.window_eq count
  rw [hwindow]
  refine ⟨?_, ?_, ?_⟩
  · rw [List.length_map, List.length_append, List.length_drop, List.length_take]
    omega
  · rw [List.pairwise_map]
    exact haround.pairwise.sublist ((List.drop_sublist _ _).append (List.take_sublist _ _))
  · rw [haround.filter_isNext hnext.1 (by omega), view_nextLine hnext.1]

/-- The next address is inside the first of two instructions. -/
theorem window_marks_next_inside :
    let d : Debugger := { machine := { Machine.new ⟨#[9, 31, 31]⟩ with pc := 0 }, program := #[] }
    d.next.IsPlace d.machine.mem.size ∧ ¬d.NextInLastLine ∧
      (d.window 2).filter (·.isNext) = [⟨1, "HLT", true⟩] := by
  intro d
  have hnext : d.next.IsPlace d.machine.mem.size := by decide
  have hlast : ¬d.NextInLastLine := by decide +kernel
  obtain ⟨-, -, hmarked⟩ := window_marks_next (show 1 ≤ 2 by decide) hnext
  rw [if_neg hlast] at hmarked
  exact ⟨hnext, hlast, hmarked⟩

/-- The next address is inside the last of the instructions, and no line is marked. -/
theorem window_without_mark :
    ¬∀ (d : Debugger) (count : Nat), 1 ≤ count → d.next.IsPlace d.machine.mem.size →
      ∃ line, (d.window count).filter (·.isNext) = [line] := by
  intro h
  let d : Debugger := { machine := { Machine.new ⟨#[9, 31]⟩ with pc := 0 }, program := #[9, 31] }
  obtain ⟨line, hline⟩ := h d 1 (by decide) (by decide)
  have hwindow : d.window 1 = [] := by decide +kernel
  rw [hwindow] at hline
  cases hline

end CellMachine.Debugger
