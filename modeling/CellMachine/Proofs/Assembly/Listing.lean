import CellMachine.Listing
import CellMachine.Proofs.Assembly.Passes
import CellMachine.Proofs.Text.Numeral

/-!
# CellMachine.Proofs.Assembly.Listing

The listing of a row of cells assembles to the cells.

* `Literal`            — a line that asks for certain cells wherever it stands.
* `lineForm_first`     — the text of the first cells of a row denotes a line that asks for them.
* `assemble_literal`   — a source of such lines assembles to their cells.
-/

namespace CellMachine

namespace Assembly

/-! ## Printed text -/

/-- The characters of mnemonics, register names and decimal numbers. -/
def IsTokenChar (c : Char) : Prop := c = '-' ∨ c.isAlphanum = true

/-- What a listing prints as a mnemonic or as an operand. -/
structure IsToken (text : List Char) : Prop where
  ne_nil : text ≠ []
  chars : ∀ c ∈ text, IsTokenChar c

/-- A mnemonic and operands in the layout of a listing. -/
def printed (mnemonic : List Char) (operands : List (List Char)) : List Char :=
  if operands.isEmpty then mnemonic
  else mnemonic ++ [' '] ++ [',', ' '].intercalate operands

def IsPrinted (text : List Char) : Prop :=
  ∃ m os, text = printed m os ∧ IsToken m ∧ ∀ o ∈ os, IsToken o

theorem not_isSeparator {c : Char} (h : IsTokenChar c) : isSeparator c = false := by
  rcases h with rfl | h
  · decide
  · rw [isSeparator, Text.not_isBlank_of_isAlphanum h, Bool.or_false, beq_eq_false_iff_ne]
    rintro rfl
    cases h

theorem words_printed {m : List Char} {os : List (List Char)} (hm : IsToken m)
    (hos : ∀ o ∈ os, IsToken o) : Text.words isSeparator (printed m os) = m :: os := by
  have htoken : ∀ {o : List Char}, IsToken o → o ≠ [] ∧ ∀ c ∈ o, isSeparator c = false :=
    fun ho => ⟨ho.ne_nil, fun c hc => not_isSeparator (ho.chars c hc)⟩
  have hmword := Text.words_eq_singleton (htoken hm).1 (htoken hm).2
  have hspace : ∀ c ∈ [' '], isSeparator c = true := List.forall_mem_singleton.mpr rfl
  have hcomma : ∀ c ∈ [',', ' '], isSeparator c = true := List.forall_mem_cons.mpr ⟨rfl, hspace⟩
  unfold printed
  split
  · rename_i hempty
    rw [List.isEmpty_iff.mp hempty, hmword]
  · rw [List.append_assoc, Text.words_append_append (List.cons_ne_nil _ _) hspace, hmword,
      Text.words_intercalate (List.cons_ne_nil _ _) hcomma fun o ho => htoken (hos o ho)]
    rfl

/-- Printed text consists of tokens, commas and spaces. -/
theorem mem_printed {m : List Char} {os : List (List Char)} (hm : IsToken m)
    (hos : ∀ o ∈ os, IsToken o) {c : Char} (h : c ∈ printed m os) :
    c = ',' ∨ c = ' ' ∨ IsTokenChar c := by
  unfold printed at h
  split at h
  · exact .inr (.inr (hm.chars c h))
  · rw [List.mem_append, List.mem_append] at h
    rcases h with (h | h) | h
    · exact .inr (.inr (hm.chars c h))
    · exact .inr (.inl (List.mem_singleton.mp h))
    · rcases Text.mem_intercalate h with h | ⟨o, ho, h⟩
      · simp only [List.mem_cons, List.not_mem_nil, or_false] at h
        rcases h with rfl | rfl
        · exact .inl rfl
        · exact .inr (.inl rfl)
      · exact .inr (.inr ((hos o ho).chars c h))

/-- No character of printed text marks a label, a comment or the end of a line. -/
theorem not_mem_printed {m : List Char} {os : List (List Char)} (hm : IsToken m)
    (hos : ∀ o ∈ os, IsToken o) {c : Char} (hc : c = ':' ∨ c = ';' ∨ c = '\n' ∨ c = '\r') :
    c ∉ printed m os := by
  intro h
  rcases mem_printed hm hos h with rfl | rfl | rfl | h
  · revert hc
    decide
  · revert hc
    decide
  · revert hc
    decide
  · rcases hc with rfl | rfl | rfl | rfl <;> cases h

theorem IsPrinted.isLine {text : List Char} (h : IsPrinted text) :
    text ≠ [] ∧ text.getLast? ≠ some '\r' ∧ '\n' ∉ text := by
  obtain ⟨m, os, rfl, hm, hos⟩ := h
  refine ⟨?_, ?_, not_mem_printed hm hos (by decide)⟩
  · intro h
    have hwords := words_printed hm hos
    rw [h] at hwords
    cases hwords
  · intro h
    exact not_mem_printed hm hos (c := '\r') (by decide) (List.mem_of_getLast? h)

theorem lineForm_printed {m : List Char} {os : List (List Char)} {s : Statement} (hm : IsToken m)
    (hos : ∀ o ∈ os, IsToken o) (h : StatementForm (m :: os) (some s)) :
    LineForm (printed m os) ⟨none, some s⟩ := by
  have hcomment : Text.uncomment (printed m os) = printed m os :=
    Text.uncomment_of_not_mem (not_mem_printed hm hos (.inr (.inl rfl)))
  refine .unlabelled ?_ ?_
  · rw [hcomment]
    exact fun hc => not_mem_printed hm hos (.inl rfl) (Text.mem_of_mem_trim hc)
  · rw [hcomment, Text.words_trim isSeparator_of_isBlank, words_printed hm hos]
    exact h

/-! ## Operands and mnemonics -/

theorem isToken_toString (w : Word) : IsToken (toString w).toList where
  ne_nil := Text.toString_ne_nil w
  chars := fun _ hc => (Text.mem_toString hc).imp_right Text.isAlphanum_of_isDigit

theorem isToken_of_all {text : List Char} (hne : text ≠ [])
    (h : text.all Char.isAlphanum = true) : IsToken text where
  ne_nil := hne
  chars := fun c hc => .inr (List.all_eq_true.mp h c hc)

theorem isToken_name (i : Fin 16) : IsToken (Registers.names[i]).toList := by
  have h : ∀ i : Fin 16, (Registers.names[i]).toList ≠ [] ∧
      (Registers.names[i]).toList.all Char.isAlphanum = true := by decide
  exact isToken_of_all (h i).1 (h i).2

theorem isToken_mnemonic (op : Opcode) : IsToken op.mnemonic.toList := by
  have h : ∀ op ∈ Opcode.all, op.mnemonic.toList ≠ [] ∧
      op.mnemonic.toList.all Char.isAlphanum = true := by decide
  exact isToken_of_all (h op (Opcode.mem_all op)).1 (h op (Opcode.mem_all op)).2

theorem ofName?_name (i : Fin 16) :
    Registers.ofName? (Registers.names[i]).toList = some i.val := by
  revert i
  decide

theorem isToken_operand (kind : OperandKind) (w : Word) : IsToken (kind.text w).toList := by
  cases kind with
  | register =>
    rw [OperandKind.text, Registers.name?]
    cases Word.place? w Registers.names.length with
    | none => exact isToken_toString w
    | some i => exact isToken_name i
  | immediate => exact isToken_toString w
  | target => exact isToken_toString w

theorem operandForm_text (kind : OperandKind) (w : Word) :
    OperandForm kind (kind.text w).toList (.value w) := by
  cases kind with
  | register =>
    rw [OperandKind.text, Registers.name?]
    cases h : Word.place? w Registers.names.length with
    | none => exact .number (readNumber_toString w)
    | some i =>
      rw [Word.eq_ofNat_of_toInt_eq (Word.place?_eq_some_iff.mp h)]
      exact .register (ofName?_name i)
  | immediate => exact .number (readNumber_toString w)
  | target => exact .number (readNumber_toString w)

def operandTexts (fields : List Field) (ws : List Word) : List (List Char) :=
  List.zipWith (fun f w => (f.kind.text w).toList) fields ws

theorem isToken_operandTexts {fields : List Field} {ws : List Word} :
    ∀ text ∈ operandTexts fields ws, IsToken text := by
  intro text h
  rw [operandTexts, ← List.map_uncurry_zip_eq_zipWith] at h
  obtain ⟨p, -, rfl⟩ := List.mem_map.mp h
  exact isToken_operand p.1.kind p.2

theorem operandForms_operandTexts {fields : List Field} {ws : List Word}
    (h : ws.length = fields.length) :
    List.Forall₂ (fun p o => OperandForm p.1.kind p.2 o) (fields.zip (operandTexts fields ws))
      (ws.map Operand.value) := by
  induction fields generalizing ws with
  | nil =>
    rw [List.length_eq_zero_iff.mp h]
    exact .nil
  | cons f fields ih =>
    cases ws with
    | nil => cases h
    | cons w ws => exact .cons (operandForm_text f.kind w) (ih (Nat.succ.inj h))

theorem upper_mnemonic (op : Opcode) :
    (Text.upper op.mnemonic.toList).map Char.toUpper = op.mnemonic.toList := by
  have h : ∀ op ∈ Opcode.all,
      (Text.upper op.mnemonic.toList).map Char.toUpper = op.mnemonic.toList := by decide
  exact h op (Opcode.mem_all op)

/-! ## Lines -/

/-- A line that asks for the cells `ws` wherever it stands. -/
structure Literal (ws : List Word) (l : Line) : Prop where
  label : l.label = none
  references : l.references = []
  fits : ∀ addr, l.Fits addr
  cells : ∀ σ addr, l.cells σ addr = ws

theorem toList_text (i : Instruction) :
    i.text.toList = printed i.opcode.mnemonic.toList (operandTexts i.opcode.fields i.operands) := by
  have htexts : operandTexts i.opcode.fields i.operands =
      (List.zipWith (fun f w => f.kind.text w) i.opcode.fields i.operands).map String.toList := by
    rw [operandTexts, List.map_zipWith]
  have hempty : ∀ ts : List String, (ts.map String.toList).isEmpty = ts.isEmpty := by
    intro ts
    cases ts <;> rfl
  rw [htexts, printed, hempty, Instruction.text]
  split
  · rfl
  · rw [String.toList_append, String.toList_append, String.toList_intercalate]
    rfl

theorem isPrinted_text (i : Instruction) : IsPrinted i.text.toList :=
  ⟨_, _, toList_text i, isToken_mnemonic _, isToken_operandTexts⟩

/-- The text of an instruction denotes the instruction. -/
theorem lineForm_instruction (i : Instruction) :
    ∃ l, LineForm i.text.toList l ∧ Literal i.encode l := by
  have hlen : i.operands.length = i.opcode.fields.length := i.length_operands
  refine ⟨⟨none, some (.instruction i.opcode (i.operands.map .value))⟩, ?_, rfl, ?_, ?_, ?_⟩
  · rw [toList_text]
    refine lineForm_printed (isToken_mnemonic _) isToken_operandTexts ?_
    refine .instruction (upper_mnemonic _) ?_ (operandForms_operandTexts hlen)
    rw [operandTexts, List.length_zipWith, hlen, Nat.min_self]
  · show (i.operands.map Operand.value).filterMap Operand.reference? = []
    rw [List.filterMap_map]
    exact List.filterMap_eq_nil_iff.mpr fun _ _ => rfl
  · rintro addr s ⟨⟩
    trivial
  · intro σ addr
    have hword : (i.operands.map Operand.value).map (Operand.word σ) = i.operands := by
      rw [List.map_map]
      exact List.map_id _
    show (instructionOf i.opcode _).encode = _
    rw [hword, instructionOf, Instruction.ofParts_operands]

theorem toList_data (w : Word) :
    s!"DAT {w}".toList = printed "DAT".toList [(toString w).toList] := by
  rw [String.toList_append, printed, List.intercalate_singleton]
  rfl

theorem isToken_directive : IsToken "DAT".toList := isToken_of_all (by decide) (by decide)

theorem isPrinted_data (w : Word) : IsPrinted s!"DAT {w}".toList :=
  ⟨_, _, toList_data w, isToken_directive, List.forall_mem_singleton.mpr (isToken_toString w)⟩

theorem lineForm_data (w : Word) : ∃ l, LineForm s!"DAT {w}".toList l ∧ Literal [w] l := by
  refine ⟨⟨none, some (.data (.value w))⟩, ?_, rfl, rfl, ?_, fun _ _ => rfl⟩
  · rw [toList_data]
    refine lineForm_printed isToken_directive
      (List.forall_mem_singleton.mpr (isToken_toString w)) ?_
    exact .data (.inl (by decide)) (.number (readNumber_toString w))
  · rintro addr s ⟨⟩
    trivial

theorem isPrinted_first (cells : List Word) : IsPrinted (Listing.first cells).1.toList := by
  unfold Listing.first
  split
  · exact isPrinted_text _
  · exact isPrinted_data _

/-- The text of what starts a row of cells denotes its cells. -/
theorem lineForm_first {cells : List Word} (h : cells ≠ []) :
    ∃ l, LineForm (Listing.first cells).1.toList l ∧
      Literal (cells.take (Listing.first cells).2) l := by
  unfold Listing.first
  split
  · rename_i i hi
    rw [Instruction.encode_of_decode hi]
    exact lineForm_instruction i
  · cases cells with
    | nil => exact absurd rfl h
    | cons c cells => exact lineForm_data c

/-! ## Sources -/

theorem exists_literal_of_mem {ls : List Line} {wss : List (List Word)}
    (h : List.Forall₂ Literal wss ls) : ∀ l ∈ ls, ∃ ws, Literal ws l := by
  induction h with
  | nil => exact nofun
  | cons hl _ ih => exact List.forall_mem_cons.mpr ⟨⟨_, hl⟩, ih⟩

theorem cellsFrom_literal {ls : List Line} {wss : List (List Word)}
    (h : List.Forall₂ Literal wss ls) (σ : String → Nat) (addr : Nat) :
    cellsFrom σ addr ls = wss.flatten := by
  induction h generalizing addr with
  | nil => rfl
  | cons hl _ ih => rw [cellsFrom, hl.cells, ih, List.flatten_cons]

/-- Lines that ask for certain cells make an image of these cells. -/
theorem assemble_literal {source : String} {ls : List Line} {wss : List (List Word)}
    (hls : Reads source ls) (h : List.Forall₂ Literal wss ls) :
    assemble source = .ok wss.flatten.toArray := by
  have hall := exists_literal_of_mem h
  have hlabels : labels ls = [] := by
    refine List.filterMap_eq_nil_iff.mpr fun l hl => ?_
    obtain ⟨ws, hws⟩ := hall l hl
    exact hws.label
  refine assemble_eq_ok_iff.mpr ⟨ls, hls, ⟨?_, ?_, ?_⟩, ?_⟩
  · intro i l hl
    obtain ⟨ws, hws⟩ := hall l (List.mem_of_getElem? hl)
    exact hws.fits _
  · rw [hlabels]
    exact List.nodup_nil
  · intro l hl key hkey
    obtain ⟨ws, hws⟩ := hall l hl
    rw [hws.references] at hkey
    cases hkey
  · exact (cellsFrom_literal h _ 0).symm

end Assembly

namespace Listing

/-- Each line of a listing denotes its cells, and the cells are those of the row in order. -/
theorem exists_literal_linesFrom (addr : Nat) (cells : List Word) :
    ∃ ls, List.Forall₂ Assembly.LineForm ((linesFrom addr cells).map (·.text.toList)) ls ∧
      List.Forall₂ Assembly.Literal ((linesFrom addr cells).map Line.cells) ls ∧
      ((linesFrom addr cells).map Line.cells).flatten = cells := by
  fun_induction linesFrom addr cells with
  | case1 => exact ⟨[], .nil, .nil, rfl⟩
  | case2 addr c rest text width h ih =>
    obtain ⟨ls, hforms, hliterals, hcells⟩ := ih
    obtain ⟨l, hform, hliteral⟩ := Assembly.lineForm_first (List.cons_ne_nil c rest)
    have hpos := first_width_pos (c :: rest)
    rw [h] at hform hliteral hpos
    refine ⟨l :: ls, .cons hform hforms, .cons hliteral hliterals, ?_⟩
    have hdrop : (c :: rest).drop width = rest.drop (width - 1) := by
      obtain ⟨n, rfl⟩ := Nat.exists_eq_add_one_of_ne_zero (Nat.ne_of_gt hpos)
      rfl
    rw [List.map_cons, List.flatten_cons, hcells, ← hdrop, List.take_append_drop]

theorem isPrinted_linesFrom (addr : Nat) (cells : List Word) :
    ∀ line ∈ linesFrom addr cells, Assembly.IsPrinted line.text.toList := by
  fun_induction linesFrom addr cells with
  | case1 => exact nofun
  | case2 addr c rest text width h ih =>
    have hfirst := Assembly.isPrinted_first (c :: rest)
    rw [h] at hfirst
    exact List.forall_mem_cons.mpr ⟨hfirst, ih⟩

/-- The texts of a listing, one on a line, are the lines of a source. -/
theorem lines_source (cells : List Word) :
    Text.lines ("\n".intercalate ((listing cells).map Line.text)).toList =
      (listing cells).map (·.text.toList) := by
  rw [String.toList_intercalate, List.map_map]
  refine Text.lines_intercalate ?_ ?_
  · rintro text h
    obtain ⟨line, hline, rfl⟩ := List.mem_map.mp h
    have hprinted := (isPrinted_linesFrom 0 cells line hline).isLine
    exact ⟨hprinted.1, hprinted.2.1⟩
  · rintro text h
    obtain ⟨line, hline, rfl⟩ := List.mem_map.mp h
    exact (isPrinted_linesFrom 0 cells line hline).isLine.2.2

/-- The listing of a row of cells, as a source, assembles to the cells. -/
theorem assemble_listing (cells : List Word) :
    assemble ("\n".intercalate ((listing cells).map Line.text)) = .ok cells.toArray := by
  obtain ⟨ls, hforms, hliterals, hcells⟩ := exists_literal_linesFrom 0 cells
  have hreads : Assembly.Reads ("\n".intercalate ((listing cells).map Line.text)) ls := by
    rw [Assembly.Reads, lines_source]
    exact hforms
  have himage := Assembly.assemble_literal hreads hliterals
  rw [hcells] at himage
  exact himage

end Listing

end CellMachine
