import CellMachine.Instruction
import CellMachine.Proofs.Word

/-!
# CellMachine.Proofs.Instruction

An instruction that is decoded from a row of cells is encoded as the start of that row.

* `Opcode.cell_of_ofCell?`          — the opcode cell of the operation that a cell names.
* `Instruction.decode_eq_ok_iff`    — cells are decoded as the instruction whose cells they start
  with.
* `Instruction.decode_eq_error_iff` — why cells are not decoded.
* `Instruction.self_delimiting`     — the code of instructions in both directions.
-/

namespace CellMachine

namespace Opcode

theorem code_all (i : Fin 32) : code all[i] = i.val := by
  revert i
  decide

/-- Only its opcode cell names an operation. -/
theorem cell_of_ofCell? {w : Word} {op : Opcode} (h : ofCell? w = some op) : op.cell = w := by
  obtain ⟨i, hi, rfl⟩ := Option.map_eq_some_iff.mp h
  rw [Word.eq_ofNat_of_toInt_eq (Word.place?_eq_some_iff.mp hi), cell]
  exact congrArg Int64.ofNat (code_all i)

theorem ofCell?_eq_none_iff {w : Word} : ofCell? w = none ↔ ¬w.IsPlace 32 := by
  rw [ofCell?, Option.map_eq_none_iff, Word.place?_eq_none_iff, Word.IsPlace]
  show w.toInt < 0 ∨ (32 : Int) ≤ w.toInt ↔ _
  omega

end Opcode

namespace Instruction

theorem operands_ofParts {op : Opcode} {ws : List Word} (h : ws.length = op.fields.length) :
    (ofParts op (ws.getD 0 0) (ws.getD 1 0)).operands = ws := by
  match ws, h with
  | [], h => cases op <;> first | rfl | cases h
  | [a], h => cases op <;> first | rfl | cases h
  | [a, b], h => cases op <;> first | rfl | cases h
  | a :: b :: c :: ws, h =>
    have hw := op.width_le_three
    simp only [Opcode.width, List.length_cons] at h hw
    omega

theorem encode_of_decode {cells : List Word} {i : Instruction} (h : decode cells = .ok i) :
    cells.take i.width = i.encode := by
  match cells, h with
  | cell :: rest, h =>
    simp only [decode] at h
    split at h
    · cases h
    · rename_i op hop
      split at h
      · cases h
      · rename_i hlen
        have hlen : (rest.take op.fields.length).length = op.fields.length := by
          rw [List.length_take] at hlen ⊢
          omega
        cases h
        rw [encode, width, opcode_ofParts, operands_ofParts hlen, Opcode.cell_of_ofCell? hop]
        rfl

theorem decode_of_ofCell?_eq_none {cell : Word} (rest : List Word)
    (h : Opcode.ofCell? cell = none) : decode (cell :: rest) = .error (.invalidOpcode cell) := by
  simp only [decode, h]

theorem decode_of_length_lt {op : Opcode} {rest : List Word}
    (h : rest.length < op.fields.length) :
    decode (op.cell :: rest) = .error (.truncated op (rest.length + 1)) := by
  simp only [decode, Opcode.ofCell?_cell]
  rw [List.take_of_length_le (Nat.le_of_lt h), if_pos h]

theorem exists_decode {op : Opcode} {rest : List Word} (h : op.fields.length ≤ rest.length) :
    ∃ i, decode (op.cell :: rest) = .ok i := by
  simp only [decode, Opcode.ofCell?_cell]
  rw [if_neg (by rw [List.length_take]; omega)]
  exact ⟨_, rfl⟩

/-- Cells that start with those of an instruction are decoded as the instruction. -/
theorem decode_of_prefix {i : Instruction} {cells : List Word} (h : i.encode <+: cells) :
    decode cells = .ok i := by
  obtain ⟨rest, rfl⟩ := h
  have hlen := i.length_operands
  simp only [decode, encode, List.cons_append, Opcode.ofCell?_cell]
  rw [List.take_left' hlen, if_neg (by omega), ofParts_operands]

theorem decode_eq_ok_iff {i : Instruction} {cells : List Word} :
    decode cells = .ok i ↔ i.encode <+: cells := by
  refine ⟨fun h => ?_, decode_of_prefix⟩
  rw [← encode_of_decode h]
  exact List.take_prefix _ _

/-- No instruction takes more than three cells. -/
theorem decode_take_three (cells : List Word) : decode (cells.take 3) = decode cells := by
  cases cells with
  | nil => rfl
  | cons cell rest =>
    have htake : ∀ op : Opcode, (rest.take 2).take op.fields.length =
        rest.take op.fields.length := by
      intro op
      have hwidth := op.width_le_three
      rw [Opcode.width] at hwidth
      rw [List.take_take, Nat.min_eq_left (by omega)]
    rw [List.take_succ_cons]
    simp only [decode, htake]

/-- The three ways in which a row of cells does not start with an instruction. -/
theorem decode_eq_error_iff {cells : List Word} {e : DecodeError} :
    decode cells = .error e ↔
      (cells = [] ∧ e = .empty) ∨
      (∃ cell rest, cells = cell :: rest ∧ ¬cell.IsPlace 32 ∧ e = .invalidOpcode cell) ∨
      ∃ op rest, cells = Opcode.cell op :: rest ∧ cells.length < op.width ∧
        e = .truncated op cells.length := by
  constructor
  · intro h
    cases cells with
    | nil =>
      cases h
      exact .inl ⟨rfl, rfl⟩
    | cons cell rest =>
      refine .inr ?_
      cases hop : Opcode.ofCell? cell with
      | none =>
        rw [decode_of_ofCell?_eq_none rest hop] at h
        cases h
        exact .inl ⟨cell, rest, rfl, Opcode.ofCell?_eq_none_iff.mp hop, rfl⟩
      | some op =>
        obtain rfl := Opcode.cell_of_ofCell? hop
        rcases Nat.lt_or_ge rest.length op.fields.length with hlen | hlen
        · rw [decode_of_length_lt hlen] at h
          cases h
          exact .inr ⟨op, rest, rfl, Nat.succ_lt_succ hlen, rfl⟩
        · obtain ⟨i, hi⟩ := exists_decode hlen
          rw [hi] at h
          cases h
  · rintro (⟨rfl, rfl⟩ | ⟨cell, rest, rfl, hcell, rfl⟩ | ⟨op, rest, rfl, hlen, rfl⟩)
    · rfl
    · exact decode_of_ofCell?_eq_none rest (Opcode.ofCell?_eq_none_iff.mpr hcell)
    · exact decode_of_length_lt (Nat.lt_of_succ_lt_succ hlen)

/-- The cells of an instruction are as many as its form says, and are read back as the instruction
whatever follows them; nothing else is read as it. Cells are not decoded exactly if there are none,
the first one is no opcode, or there are fewer than its operation takes. -/
theorem self_delimiting :
    (∀ (i : Instruction) (rest : List Word), decode (i.encode ++ rest) = .ok i ∧
      i.encode.length = i.width ∧ i.width = i.opcode.form.width) ∧
    (∀ (cells : List Word) (i : Instruction),
      decode cells = .ok i ↔ i.encode = cells.take i.width) ∧
    ∀ cells : List Word, (∃ e, decode cells = .error e) ↔
      cells = [] ∨ (∃ cell rest, cells = cell :: rest ∧ ¬cell.IsPlace 32) ∨
        ∃ op rest, cells = Opcode.cell op :: rest ∧ cells.length < op.width := by
  refine ⟨fun i rest => ⟨?_, i.length_encode, i.opcode.width_eq_form_width⟩, fun cells i => ?_,
    fun cells => ?_⟩
  · exact decode_of_prefix (List.prefix_append i.encode rest)
  · rw [decode_eq_ok_iff, List.prefix_iff_eq_take, length_encode]
  · simp only [decode_eq_error_iff]
    constructor
    · rintro ⟨e, ⟨h, -⟩ | ⟨cell, rest, h, hcell, -⟩ | ⟨op, rest, h, hlen, -⟩⟩
      · exact .inl h
      · exact .inr (.inl ⟨cell, rest, h, hcell⟩)
      · exact .inr (.inr ⟨op, rest, h, hlen⟩)
    · rintro (h | ⟨cell, rest, h, hcell⟩ | ⟨op, rest, h, hlen⟩)
      · exact ⟨_, .inl ⟨h, rfl⟩⟩
      · exact ⟨_, .inr (.inl ⟨cell, rest, h, hcell, rfl⟩)⟩
      · exact ⟨_, .inr (.inr ⟨op, rest, h, hlen, rfl⟩)⟩

end Instruction

end CellMachine
