import CellMachine.Assembly.Statement
import CellMachine.Proofs.Result
import CellMachine.Proofs.Text.Ascii
import CellMachine.Proofs.Text.Words

/-!
# CellMachine.Proofs.Assembly.Form

The grammar of assembly lines, and that the readers of operands and statements accept it and
nothing else.

* `OperandForm`, `StatementForm`, `LineForm` — what tokens, words and lines denote.
* `readOperand_eq_ok_iff`, `readStatement_eq_ok_iff`, `readLine_eq_ok_iff` — the readers against
  the grammar.
-/

namespace CellMachine.Assembly

/-- What a line asks for: a label, a statement, both or nothing. -/
structure Line where
  label : Option String := none
  statement : Option Statement := none
  deriving DecidableEq, Repr

/-- What a token denotes in the place of an operand. -/
inductive OperandForm : OperandKind → List Char → Operand → Prop where
  | register {text : List Char} {i : Nat} (h : Registers.ofName? text = some i) :
      OperandForm .register text (.value (Int64.ofNat i))
  | number {kind : OperandKind} {text : List Char} {w : Word} (h : readNumber text = some w) :
      OperandForm kind text (.value w)
  | label {text : List Char} (h : isIdentifier text = true) :
      OperandForm .immediate text (.label (labelKey text))
  | target {text : List Char} (h : isIdentifier text = true) :
      OperandForm .target text (.beforeLabel (labelKey text))

/-- What the words of a line denote. Mnemonics may be written in letters of either case. -/
inductive StatementForm : List (List Char) → Option Statement → Prop where
  | blank : StatementForm [] none
  | origin {m text : List Char} {w : Word} (hm : Text.upper m = "ORG".toList)
      (hw : readNumber text = some w) : StatementForm [m, text] (some (.origin w))
  | data {m text : List Char} {o : Operand}
      (hm : Text.upper m = "DAT".toList ∨ Text.upper m = "DATA".toList)
      (ho : OperandForm .immediate text o) : StatementForm [m, text] (some (.data o))
  | instruction {m : List Char} {texts : List (List Char)} {op : Opcode} {os : List Operand}
      (hm : (Text.upper m).map Char.toUpper = op.mnemonic.toList)
      (hlen : texts.length = op.fields.length)
      (hos : List.Forall₂ (fun p o => OperandForm p.1.kind p.2 o) (op.fields.zip texts) os) :
      StatementForm (m :: texts) (some (.instruction op os))

/-- What a line denotes. A label ends at the first colon; it is an identifier that does not name
a register. -/
inductive LineForm : List Char → Line → Prop where
  | unlabelled {text : List Char} {s : Option Statement}
      (hcolon : ':' ∉ Text.trim (Text.uncomment text))
      (hs : StatementForm (Text.words isSeparator (Text.trim (Text.uncomment text))) s) :
      LineForm text ⟨none, s⟩
  | labelled {text front rest : List Char} {s : Option Statement}
      (ht : Text.trim (Text.uncomment text) = front ++ ':' :: rest) (hcolon : ':' ∉ front)
      (hid : isIdentifier (Text.trim front) = true)
      (hreg : Registers.ofName? (Text.trim front) = none)
      (hs : StatementForm (Text.words isSeparator rest) s) :
      LineForm text ⟨some (labelKey (Text.trim front)), s⟩

/-! ## Tokens -/

theorem isSeparator_of_isBlank (c : Char) (h : Text.isBlank c = true) : isSeparator c = true := by
  rw [isSeparator, h, Bool.or_true]

/-- A number starts with a digit or a minus sign. -/
theorem isDigit_of_readNumber {c : Char} {text : List Char} {w : Word}
    (h : readNumber (c :: text) = some w) : c = '-' ∨ c.isDigit = true := by
  by_cases hminus : c = '-'
  · exact .inl hminus
  · have hs : splitMinus (c :: text) = (false, c :: text) := by
      unfold splitMinus
      split
      · rename_i heq
        exact absurd (List.cons.inj heq).1 hminus
      · rfl
    simp only [readNumber, hs] at h
    split at h
    · rename_i hex heq
      refine .inr ?_
      unfold hexDigits? at heq
      split at heq
      · rename_i hc
        rw [(List.cons.inj hc).1]
        rfl
      · rename_i hc
        rw [(List.cons.inj hc).1]
        rfl
      · cases heq
    · split at h
      · rename_i hall
        exact .inr (List.all_eq_true.mp hall c List.mem_cons_self)
      · cases h

theorem readNumber_of_isIdentifier {text : List Char} (h : isIdentifier text = true) :
    readNumber text = none := by
  cases text with
  | nil => rfl
  | cons c text =>
    rw [Option.eq_none_iff_forall_ne_some]
    intro w hw
    simp only [isIdentifier, Bool.and_eq_true, Bool.or_eq_true, beq_iff_eq] at h
    rcases isDigit_of_readNumber hw with rfl | hd
    · exact absurd h.1 (by decide)
    · rcases h.1 with ha | rfl
      · have ha := Text.isAlpha_iff.mp ha
        have hd := Text.isDigit_iff.mp hd
        omega
      · exact absurd hd (by decide)

/-- The name of a register starts with a letter. -/
theorem readNumber_of_ofName? {text : List Char} {i : Nat} (h : Registers.ofName? text = some i) :
    readNumber text = none := by
  obtain ⟨hi, heq, -⟩ := List.findIdx?_eq_some_iff_getElem.mp h
  have hR : ∀ name ∈ Registers.names, name.toList.head? = some 'R' := by decide
  have hhead := hR _ (List.getElem_mem hi)
  rw [beq_iff_eq.mp heq] at hhead
  cases text with
  | nil => cases hhead
  | cons c text =>
    have hc : c.toUpper = 'R' := Option.some.inj hhead
    rw [Option.eq_none_iff_forall_ne_some]
    intro w hw
    rcases isDigit_of_readNumber hw with rfl | hd
    · exact absurd hc (by decide)
    · rw [Text.toUpper_of_lt (by have := Text.isDigit_iff.mp hd; omega)] at hc
      rw [hc] at hd
      cases hd

theorem readOperand_eq_ok_iff {kind : OperandKind} {text : List Char} {o : Operand} :
    readOperand kind text = .ok o ↔ OperandForm kind text o := by
  constructor
  · intro h
    cases kind with
    | register =>
      simp only [readOperand] at h
      split at h
      · cases h
        exact .register ‹_›
      · cases hn : readNumber text with
        | none =>
          rw [hn] at h
          cases h
        | some w =>
          rw [hn] at h
          cases h
          exact .number hn
    | immediate =>
      simp only [readOperand] at h
      split at h
      · cases h
        exact .number ‹_›
      · split at h
        · cases h
          exact .label ‹_›
        · cases h
    | target =>
      simp only [readOperand] at h
      split at h
      · cases h
        exact .number ‹_›
      · split at h
        · cases h
          exact .target ‹_›
        · cases h
  · intro h
    cases h with
    | register h => simp only [readOperand, h]
    | @number kind _ w h =>
      cases kind with
      | register =>
        have hname : Registers.ofName? text = none := by
          cases hi : Registers.ofName? text with
          | none => rfl
          | some i =>
            rw [readNumber_of_ofName? hi] at h
            cases h
        simp only [readOperand, hname, h, Option.elim_some]
      | immediate => simp only [readOperand, h]
      | target => simp only [readOperand, h]
    | label h =>
      simp only [readOperand, readNumber_of_isIdentifier h, h, if_true, reduceCtorEq, if_false]
    | target h => simp only [readOperand, readNumber_of_isIdentifier h, h, if_true]

/-! ## Statements -/

theorem readOrigin_eq_ok_iff {text : List Char} {w : Word} :
    readOrigin text = .ok w ↔ readNumber text = some w := by
  unfold readOrigin
  cases readNumber text with
  | none => exact ⟨nofun, nofun⟩
  | some v => simp only [Except.ok.injEq, Option.some.injEq]

theorem checkCount_eq_ok_iff {m : List Char} {expected found : Nat} {u : Unit} :
    checkCount m expected found = .ok u ↔ found = expected := by
  unfold checkCount
  split
  · exact ⟨fun _ => ‹_›, fun _ => rfl⟩
  · exact ⟨nofun, fun h => absurd h ‹_›⟩

/-- A mnemonic is that of one operation. -/
theorem ofMnemonic?_eq_some_iff {text : List Char} {op : Opcode} :
    Opcode.ofMnemonic? text = some op ↔ text.map Char.toUpper = op.mnemonic.toList := by
  constructor
  · intro h
    have heq := List.find?_some
      (p := fun o : Opcode => o.mnemonic.toList == text.map Char.toUpper) h
    exact (beq_iff_eq.mp heq).symm
  · intro h
    have hall : ∀ op ∈ Opcode.all,
        Opcode.all.find? (fun o => o.mnemonic.toList == op.mnemonic.toList) = some op := by decide
    rw [Opcode.ofMnemonic?, h]
    exact hall op (Opcode.mem_all op)

/-- Directives are no mnemonics of operations. -/
theorem ofMnemonic?_directive {text : List Char}
    (h : text = "ORG".toList ∨ text = "DAT".toList ∨ text = "DATA".toList) :
    Opcode.ofMnemonic? text = none := by
  rcases h with rfl | rfl | rfl <;> decide

theorem readOperands_eq_ok_iff {fields : List Field} {texts : List (List Char)}
    {os : List Operand} :
    ((fields.zip texts).mapM fun (f, text) => readOperand f.kind text) = .ok os ↔
      List.Forall₂ (fun p o => OperandForm p.1.kind p.2 o) (fields.zip texts) os := by
  simp only [mapM_eq_ok_iff, readOperand_eq_ok_iff]

theorem readWords_eq_ok_iff {m : List Char} {texts : List (List Char)} {s : Statement} :
    readWords (Text.upper m) texts = .ok s ↔ StatementForm (m :: texts) (some s) := by
  constructor
  · intro h
    simp only [readWords] at h
    split at h
    · rename_i hm
      simp only [bind_eq_ok_iff] at h
      obtain ⟨_, hc, w, hw, h⟩ := h
      obtain ⟨text, rfl⟩ := List.length_eq_one_iff.mp (checkCount_eq_ok_iff.mp hc)
      cases h
      exact .origin hm (readOrigin_eq_ok_iff.mp hw)
    · split at h
      · rename_i hm
        simp only [bind_eq_ok_iff] at h
        obtain ⟨_, hc, o, ho, h⟩ := h
        obtain ⟨text, rfl⟩ := List.length_eq_one_iff.mp (checkCount_eq_ok_iff.mp hc)
        cases h
        exact .data hm (readOperand_eq_ok_iff.mp ho)
      · split at h
        · cases h
        · rename_i op hop
          simp only [bind_eq_ok_iff] at h
          obtain ⟨_, hc, os, hos, h⟩ := h
          cases h
          exact .instruction (ofMnemonic?_eq_some_iff.mp hop) (checkCount_eq_ok_iff.mp hc)
            (readOperands_eq_ok_iff.mp hos)
  · intro h
    cases h with
    | @origin _ text w hm hw =>
      simp only [readWords, hm, if_true]
      exact bind_eq_ok_iff.mpr ⟨(), checkCount_eq_ok_iff.mpr rfl,
        bind_eq_ok_iff.mpr ⟨w, readOrigin_eq_ok_iff.mpr hw, rfl⟩⟩
    | @data _ text o hm ho =>
      have horg : Text.upper m ≠ "ORG".toList := by rcases hm with hm | hm <;> rw [hm] <;> decide
      simp only [readWords, if_neg horg, if_pos hm]
      exact bind_eq_ok_iff.mpr ⟨(), checkCount_eq_ok_iff.mpr rfl,
        bind_eq_ok_iff.mpr ⟨o, readOperand_eq_ok_iff.mpr ho, rfl⟩⟩
    | @instruction _ _ op os hm hlen hos =>
      -- Directives are tried first, but no mnemonic is one.
      have hop := ofMnemonic?_eq_some_iff.mpr hm
      have horg : Text.upper m ≠ "ORG".toList := by
        intro h
        rw [ofMnemonic?_directive (.inl h)] at hop
        cases hop
      have hdat : ¬(Text.upper m = "DAT".toList ∨ Text.upper m = "DATA".toList) := by
        intro h
        rw [ofMnemonic?_directive (.inr h)] at hop
        cases hop
      simp only [readWords, if_neg horg, if_neg hdat, hop]
      exact bind_eq_ok_iff.mpr ⟨(), checkCount_eq_ok_iff.mpr hlen,
        bind_eq_ok_iff.mpr ⟨os, readOperands_eq_ok_iff.mpr hos, rfl⟩⟩

theorem readStatement_eq_ok_iff {text : List Char} {s : Option Statement} :
    readStatement text = .ok s ↔ StatementForm (Text.words isSeparator text) s := by
  unfold readStatement
  cases Text.words isSeparator text with
  | nil =>
    constructor
    · rintro ⟨⟩
      exact .blank
    · rintro ⟨⟩
      rfl
  | cons m texts =>
    rw [map_eq_ok_iff]
    constructor
    · rintro ⟨s, hs, rfl⟩
      exact readWords_eq_ok_iff.mp hs
    · intro h
      cases s with
      | none => cases h
      | some s => exact ⟨s, readWords_eq_ok_iff.mpr h, rfl⟩

/-! ## Lines -/

def readLine (text : List Char) : Except Cause Line := do
  let (label, rest) := splitLabel (Text.trim (Text.uncomment text))
  let key ← match label with
    | none => pure none
    | some name => (readLabel name).map some
  return ⟨key, ← readStatement rest⟩

theorem splitLabel_of_not_mem {line : List Char} (h : ':' ∉ line) :
    splitLabel line = (none, line) := by
  unfold splitLabel
  rw [List.dropWhile_eq_nil_iff.mpr (Text.forall_ne_of_not_mem h)]

theorem splitLabel_append {front rest : List Char} (h : ':' ∉ front) :
    splitLabel (front ++ ':' :: rest) = (some (Text.trim front), rest) := by
  have hall := Text.forall_ne_of_not_mem h
  unfold splitLabel
  rw [List.dropWhile_append_of_pos hall, List.takeWhile_append_of_pos hall]
  simp only [List.dropWhile_cons, List.takeWhile_cons, ne_eq, not_true_eq_false, decide_false,
    Bool.false_eq_true, if_false, List.append_nil]

theorem readLabel_eq_ok_iff {text : List Char} {key : String} :
    readLabel text = .ok key ↔
      isIdentifier text = true ∧ Registers.ofName? text = none ∧ labelKey text = key := by
  unfold readLabel
  split
  · rename_i h
    rw [Bool.and_eq_true, Option.isNone_iff_eq_none] at h
    simp only [Except.ok.injEq, h, true_and]
  · rename_i h
    rw [Bool.and_eq_true, Option.isNone_iff_eq_none] at h
    exact ⟨nofun, fun ⟨hid, hreg, _⟩ => absurd ⟨hid, hreg⟩ h⟩

theorem readLine_eq_ok_iff {text : List Char} {l : Line} :
    readLine text = .ok l ↔ LineForm text l := by
  unfold readLine
  constructor
  · intro h
    by_cases hcolon : ':' ∈ Text.trim (Text.uncomment text)
    · obtain ⟨front, rest, ht, hfront⟩ := List.eq_append_cons_of_mem hcolon
      rw [ht, splitLabel_append hfront] at h
      obtain ⟨key, hkey, h⟩ := bind_eq_ok_iff.mp h
      obtain ⟨s, hs, h⟩ := bind_eq_ok_iff.mp h
      obtain ⟨_, hlabel, rfl⟩ := map_eq_ok_iff.mp hkey
      obtain ⟨hid, hreg, rfl⟩ := readLabel_eq_ok_iff.mp hlabel
      cases h
      exact .labelled ht hfront hid hreg (readStatement_eq_ok_iff.mp hs)
    · rw [splitLabel_of_not_mem hcolon] at h
      obtain ⟨_, ⟨⟩, h⟩ := bind_eq_ok_iff.mp h
      obtain ⟨s, hs, h⟩ := bind_eq_ok_iff.mp h
      cases h
      exact .unlabelled hcolon (readStatement_eq_ok_iff.mp hs)
  · intro h
    cases h with
    | unlabelled hcolon hs =>
      rw [splitLabel_of_not_mem hcolon]
      exact bind_eq_ok_iff.mpr ⟨none, rfl,
        bind_eq_ok_iff.mpr ⟨_, readStatement_eq_ok_iff.mpr hs, rfl⟩⟩
    | labelled ht hcolon hid hreg hs =>
      rw [ht, splitLabel_append hcolon]
      have hlabel := readLabel_eq_ok_iff.mpr ⟨hid, hreg, rfl⟩
      exact bind_eq_ok_iff.mpr ⟨_, map_eq_ok_iff.mpr ⟨_, hlabel, rfl⟩,
        bind_eq_ok_iff.mpr ⟨_, readStatement_eq_ok_iff.mpr hs, rfl⟩⟩

end CellMachine.Assembly
