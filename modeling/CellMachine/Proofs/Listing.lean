import CellMachine.Listing

/-!
# CellMachine.Proofs.Listing

Where the lines of a listing stand.

* `Listing.lineAt`             — the line at an address of a row of cells.
* `Listing.eq_lineAt_of_mem`   — each line of a listing is the line at its address.
* `Listing.pairwise_linesFrom` — the addresses of a listing increase.
-/

namespace CellMachine.Listing

/-- The line at `addr`, whether or not the listing has a line there. -/
def lineAt (cells : List Word) (addr : Nat) : Line :=
  let rest := cells.drop addr
  ⟨addr, rest.take (first rest).2, (first rest).1⟩

section

variable {cells : List Word} {addr : Nat}

/-- The first line takes its cells, and the others those that are left. -/
theorem linesFrom_of_ne_nil (h : cells ≠ []) :
    linesFrom addr cells =
      ⟨addr, cells.take (first cells).2, (first cells).1⟩ ::
        linesFrom (addr + (first cells).2) (cells.drop (first cells).2) := by
  cases cells with
  | nil => exact absurd rfl h
  | cons c rest =>
    obtain ⟨n, hn⟩ := Nat.exists_eq_add_one_of_ne_zero
      (Nat.ne_of_gt (first_width_pos (c :: rest)))
    rw [linesFrom]
    generalize first (c :: rest) = line at hn ⊢
    obtain ⟨text, width⟩ := line
    obtain rfl : width = n + 1 := hn
    rfl

/-- The lines from an address on are the line there and the lines from its end on. -/
theorem linesFrom_drop (h : addr < cells.length) :
    linesFrom addr (cells.drop addr) =
      lineAt cells addr ::
        linesFrom (addr + (first (cells.drop addr)).2)
          (cells.drop (addr + (first (cells.drop addr)).2)) := by
  have hne : cells.drop addr ≠ [] := by
    rw [ne_eq, List.drop_eq_nil_iff]
    omega
  rw [linesFrom_of_ne_nil hne, List.drop_drop]
  rfl

theorem linesFrom_drop_of_le (h : cells.length ≤ addr) : linesFrom addr (cells.drop addr) = [] := by
  rw [List.drop_eq_nil_of_le h, linesFrom]

end

/-- By induction on the cells that are left: a line is the first one, or one of those behind it. -/
theorem eq_lineAt_of_mem {cells : List Word} {addr : Nat} {line : Line}
    (h : line ∈ linesFrom addr (cells.drop addr)) :
    addr ≤ line.addr ∧ line.addr < cells.length ∧ line = lineAt cells line.addr := by
  rcases Nat.lt_or_ge addr cells.length with hlt | hge
  · rw [linesFrom_drop hlt] at h
    have hpos := first_width_pos (cells.drop addr)
    rcases List.mem_cons.mp h with rfl | h
    · exact ⟨Nat.le_refl _, hlt, rfl⟩
    · obtain ⟨hle, hline⟩ := eq_lineAt_of_mem h
      exact ⟨Nat.le_trans (Nat.le_add_right _ _) hle, hline⟩
  · rw [linesFrom_drop_of_le hge] at h
    cases h
termination_by cells.length - addr

/-- By the same induction: what is behind a line stands behind its last cell. -/
theorem pairwise_linesFrom (cells : List Word) (addr : Nat) :
    (linesFrom addr (cells.drop addr)).Pairwise (·.addr < ·.addr) := by
  rcases Nat.lt_or_ge addr cells.length with hlt | hge
  · have hpos := first_width_pos (cells.drop addr)
    rw [linesFrom_drop hlt]
    refine .cons (fun line hline => ?_) (pairwise_linesFrom cells _)
    have hle := (eq_lineAt_of_mem hline).1
    show addr < line.addr
    omega
  · rw [linesFrom_drop_of_le hge]
    exact .nil
termination_by cells.length - addr

theorem pairwise_listing (cells : List Word) :
    (listing cells).Pairwise (·.addr < ·.addr) := pairwise_linesFrom cells 0

end CellMachine.Listing
