import CellMachine.Proofs.Assembly.Rejection
import CellMachine.Proofs.Text.Numeral

/-!
# CellMachine.Proofs.Assembly.Number

The grammar of numbers in assembly sources, and what the assembler takes for a number.

* `NumberForm`               — the grammar.
* `readNumber_eq_some_iff`   — the reader accepts it, and hexadecimal digits behind a plus sign.
* `NumberPlace`              — where numbers stand: origins, data, immediates and jump targets.
* `number_operands`          — a token in such a place is a number, a label or a syntax error.
-/

namespace CellMachine

namespace Text

def IsHexDigit (c : Char) : Prop := (hexValue? c).isSome = true

instance (c : Char) : Decidable (IsHexDigit c) := inferInstanceAs (Decidable (_ = _))

/-- The number denoted by hexadecimal digits, most significant first. -/
def hexadecimalValue (digits : List Char) : Nat :=
  digits.foldl (fun n c => 16 * n + (hexValue? c).getD 0) 0

/-- One or more hexadecimal digits, and their value, which fits into 64 bits. -/
structure IsHexNumeral (cs : List Char) (n : Nat) : Prop where
  ne_nil : cs ≠ []
  digits : ∀ c ∈ cs, IsHexDigit c
  value : hexadecimalValue cs = n
  lt : n < UInt64.size

theorem hexDigits?_eq_some_iff {cs : List Char} {n : Nat} :
    hexDigits? cs = some n ↔ (∀ c ∈ cs, IsHexDigit c) ∧ hexadecimalValue cs = n := by
  -- The digits that are left are weighed from the value of those before them.
  suffices h : ∀ k, cs.foldlM (fun n c => (hexValue? c).map (16 * n + ·)) k = some n ↔
      (∀ c ∈ cs, IsHexDigit c) ∧ cs.foldl (fun n c => 16 * n + (hexValue? c).getD 0) k = n from
    h 0
  induction cs with
  | nil => simp
  | cons c cs ih =>
    intro k
    rw [List.foldlM_cons, List.foldl_cons, List.forall_mem_cons, IsHexDigit]
    cases hexValue? c with
    | none => simp
    | some d => simpa using ih (16 * k + d)

/-- A plus sign in front of hexadecimal digits is read over. -/
def dropPlus (cs : List Char) : List Char :=
  match cs with
  | '+' :: rest => rest
  | _ => cs

theorem readHex_eq (cs : List Char) :
    readHex cs = if (dropPlus cs).isEmpty then none else
      (hexDigits? (dropPlus cs)).bind fun n => if n < UInt64.size then some n else none := rfl

theorem readHex_eq_some_iff {cs : List Char} {n : Nat} :
    readHex cs = some n ↔ IsHexNumeral (dropPlus cs) n := by
  rw [readHex_eq]
  split
  · rename_i hempty
    exact ⟨nofun, fun h => absurd (List.isEmpty_iff.mp hempty) h.ne_nil⟩
  · rename_i hempty
    rw [List.isEmpty_iff] at hempty
    rw [Option.bind_eq_some_iff]
    constructor
    · rintro ⟨k, hk, h⟩
      obtain ⟨hd, hvalue⟩ := hexDigits?_eq_some_iff.mp hk
      split at h
      · rename_i hlt
        cases h
        exact ⟨hempty, hd, hvalue, hlt⟩
      · cases h
    · intro h
      exact ⟨n, hexDigits?_eq_some_iff.mpr ⟨h.digits, h.value⟩, if_pos h.lt⟩

/-- A plus sign is no digit. -/
theorem isHexNumeral_dropPlus_iff {cs : List Char} {n : Nat} :
    IsHexNumeral (dropPlus cs) n ↔
      IsHexNumeral cs n ∨ ∃ digits, cs = '+' :: digits ∧ IsHexNumeral digits n := by
  have hplus : ¬IsHexDigit '+' := by decide
  unfold dropPlus
  split
  · rename_i rest
    constructor
    · intro h
      exact .inr ⟨rest, rfl, h⟩
    · rintro (h | ⟨_, ⟨⟩, h⟩)
      · exact absurd (h.digits '+' List.mem_cons_self) hplus
      · exact h
  · rename_i hne
    constructor
    · exact .inl
    · rintro (h | ⟨digits, rfl, -⟩)
      · exact h
      · exact absurd rfl (hne digits)

end Text

namespace Assembly

/-! ## The grammar of numbers -/

/-- A text behind a minus sign, or alone. -/
def signed (negative : Bool) (text : List Char) : List Char :=
  if negative then '-' :: text else text

/-- Hexadecimal digits behind `0x` and `plus`: the bits of a word, which is negated if there is a
minus sign in front. -/
inductive HexForm (plus : List Char) : List Char → Word → Prop where
  | mk (negative : Bool) {x : Char} {digits : List Char} {n : Nat} (hx : x = 'x' ∨ x = 'X')
      (h : Text.IsHexNumeral digits n) :
      HexForm plus (signed negative ('0' :: x :: (plus ++ digits)))
        (if negative then -Int64.ofNat n else Int64.ofNat n)

/-- What a number of a source looks like: decimal digits or, behind `0x`, hexadecimal ones, and an
optional minus sign in front. Decimal numbers lie in the range of words. -/
inductive NumberForm : List Char → Word → Prop where
  | decimal (negative : Bool) {digits : List Char} {w : Word} (hne : digits ≠ [])
      (hd : ∀ c ∈ digits, c.isDigit = true)
      (hw : w.toInt = if negative then -(Text.decimalValue digits : Int)
        else Text.decimalValue digits) :
      NumberForm (signed negative digits) w
  | hex {text : List Char} {w : Word} (h : HexForm [] text w) : NumberForm text w

theorem exists_signed (text : List Char) :
    ∃ negative body, text = signed negative body ∧ splitMinus text = (negative, body) := by
  unfold splitMinus
  split
  · exact ⟨true, _, rfl, rfl⟩
  · exact ⟨false, _, rfl, rfl⟩

theorem splitMinus_signed {negative : Bool} {body : List Char} (h : body.head? ≠ some '-') :
    splitMinus (signed negative body) = (negative, body) := by
  cases negative with
  | true => rfl
  | false =>
    show splitMinus body = (false, body)
    unfold splitMinus
    split
    · exact absurd rfl h
    · rfl

theorem head?_ne_of_isDigit {digits : List Char} {a : Char} (h : ∀ c ∈ digits, c.isDigit = true)
    (ha : a.isDigit = false) : digits.head? ≠ some a := by
  intro hhead
  have hdigit := h a (List.mem_of_head? hhead)
  rw [ha] at hdigit
  cases hdigit

theorem splitSign_signed {negative : Bool} {digits : List Char}
    (h : ∀ c ∈ digits, c.isDigit = true) :
    Text.splitSign (signed negative digits) = (negative, digits) := by
  cases negative with
  | true => rfl
  | false => exact Text.splitSign_of_isDigit h

theorem hexDigits?_eq_some_iff {body hex : List Char} :
    hexDigits? body = some hex ↔ ∃ x, (x = 'x' ∨ x = 'X') ∧ body = '0' :: x :: hex := by
  unfold hexDigits?
  split
  · simp
  · simp
  · rename_i hlower hupper
    constructor
    · nofun
    · rintro ⟨x, rfl | rfl, rfl⟩
      · exact absurd rfl (hlower hex)
      · exact absurd rfl (hupper hex)

theorem readNumber_of_hex {text body hex : List Char} {negative : Bool}
    (hs : splitMinus text = (negative, body)) (hb : hexDigits? body = some hex) :
    readNumber text = (Text.readHex hex).map fun n =>
      if negative then -Int64.ofNat n else Int64.ofNat n := by
  simp only [readNumber, hs, hb]

theorem HexForm.readNumber_eq {plus text : List Char} {w : Word} (hplus : plus = [] ∨ plus = ['+'])
    (h : HexForm plus text w) : readNumber text = some w := by
  obtain ⟨negative, hx, hdigits⟩ := h
  rename_i x digits n
  have hs : splitMinus (signed negative ('0' :: x :: (plus ++ digits))) =
      (negative, '0' :: x :: (plus ++ digits)) := splitMinus_signed (by simp)
  have hread : Text.readHex (plus ++ digits) = some n := by
    rw [Text.readHex_eq_some_iff, Text.isHexNumeral_dropPlus_iff]
    rcases hplus with rfl | rfl
    · exact .inl hdigits
    · exact .inr ⟨digits, rfl, hdigits⟩
  rw [readNumber_of_hex hs (hexDigits?_eq_some_iff.mpr ⟨x, hx, rfl⟩), hread]
  rfl

theorem NumberForm.readNumber_eq {text : List Char} {w : Word} (h : NumberForm text w) :
    readNumber text = some w := by
  cases h with
  | @decimal negative digits _ hne hd hw =>
    have hs : splitMinus (signed negative digits) = (negative, digits) :=
      splitMinus_signed (head?_ne_of_isDigit hd rfl)
    rw [readNumber_of_splitMinus hs hd, Text.readWord_of_splitSign (splitSign_signed hd) hne hd hw]
    rfl
  | hex h => exact h.readNumber_eq (.inl rfl)

/-- Without the mark of hexadecimal digits, a number is a decimal one. -/
theorem numberForm_of_decimal {negative : Bool} {body : List Char} {w : Word}
    (hs : splitMinus (signed negative body) = (negative, body)) (hb : hexDigits? body = none)
    (h : readNumber (signed negative body) = some w) : NumberForm (signed negative body) w := by
  have hd : ∀ c ∈ body, c.isDigit = true := by
    simp only [readNumber, hs, hb] at h
    split at h
    · exact List.all_eq_true.mp ‹_›
    · cases h
  rw [readNumber_of_splitMinus hs hd] at h
  cases hr : Text.readWord (signed negative body) with
  | error e =>
    rw [hr] at h
    cases h
  | ok v =>
    rw [hr] at h
    cases h
    obtain ⟨hne, -, hw⟩ := Text.eq_of_readWord (splitSign_signed hd) hr
    exact .decimal negative hne hd hw

/-- What is read as a number is one by the grammar, or would be one without the plus sign in front
of its hexadecimal digits. -/
theorem readNumber_eq_some_iff {text : List Char} {w : Word} :
    readNumber text = some w ↔ NumberForm text w ∨ HexForm ['+'] text w := by
  constructor
  · intro h
    obtain ⟨negative, body, rfl, hs⟩ := exists_signed text
    cases hb : hexDigits? body with
    | none => exact .inl (numberForm_of_decimal hs hb h)
    | some hex =>
      rw [readNumber_of_hex hs hb] at h
      obtain ⟨n, hn, rfl⟩ := Option.map_eq_some_iff.mp h
      obtain ⟨x, hx, rfl⟩ := hexDigits?_eq_some_iff.mp hb
      rcases Text.isHexNumeral_dropPlus_iff.mp (Text.readHex_eq_some_iff.mp hn) with
        hdigits | ⟨digits, rfl, hdigits⟩
      · exact .inl (.hex (.mk negative hx hdigits))
      · exact .inr (.mk negative hx hdigits)
  · rintro (h | h)
    · exact h.readNumber_eq
    · exact h.readNumber_eq (.inr rfl)

/-- No number of the grammar has a plus sign. -/
theorem HexForm.not_numberForm {text : List Char} {v w : Word} (hplus : HexForm ['+'] text v) :
    ¬NumberForm text w := by
  obtain ⟨negative, hx, -⟩ := hplus
  rename_i x digits n
  generalize htext : signed negative ('0' :: x :: (['+'] ++ digits)) = text
  have hs : splitMinus text = (negative, '0' :: x :: (['+'] ++ digits)) := by
    rw [← htext]
    exact splitMinus_signed (by simp)
  intro h
  cases h with
  | decimal negative' hne hd hw =>
    rw [splitMinus_signed (head?_ne_of_isDigit hd rfl)] at hs
    have hdigit := hd x (by simp [(Prod.mk.inj hs).2])
    rcases hx with rfl | rfl <;> cases hdigit
  | hex h =>
    obtain ⟨negative', hx', hdigits⟩ := h
    rename_i x' digits' n'
    have hs' : splitMinus (signed negative' ('0' :: x' :: ([] ++ digits'))) =
        (negative', '0' :: x' :: ([] ++ digits')) := splitMinus_signed (by simp)
    rw [hs'] at hs
    have hdigits' : digits' = '+' :: digits :=
      (List.cons.inj (List.cons.inj (Prod.mk.inj hs).2).2).2
    have hdigit := hdigits.digits '+' (by simp [hdigits'])
    exact absurd hdigit (by decide)

/-! ## The places of numbers -/

def Operand.number? : Operand → Option Word
  | .value w => some w
  | .label _ | .beforeLabel _ => none

/-- The number in a place of a statement, counted from `0`. -/
def Statement.number? : Statement → Nat → Option Word
  | .origin w, _ => some w
  | .data o, _ => o.number?
  | .instruction _ os, n => os[n]?.bind Operand.number?

/-- A mnemonic with a place for a number: that of an origin, of data, of an immediate or of a jump
target, between the operand cells `before` and `behind`. -/
inductive NumberPlace (m : List Char) : List Field → List Field → Prop where
  | origin (hm : Text.upper m = "ORG".toList) : NumberPlace m [] []
  | data (hm : Text.upper m = "DAT".toList ∨ Text.upper m = "DATA".toList) : NumberPlace m [] []
  | operand {op : Opcode} {before behind : List Field} {f : Field}
      (hm : (Text.upper m).map Char.toUpper = op.mnemonic.toList)
      (hf : op.fields = before ++ f :: behind) (hkind : f.kind ≠ .register) :
      NumberPlace m before behind

/-- The text that a syntax error shows. -/
def Cause.syntaxText? : Cause → Option String
  | .invalidLabel text | .invalidOperand text | .invalidOrigin text => some text
  | _ => none

/-- Tokens that can be read as the operands in certain cells. -/
def Readable (fields : List Field) (tokens : List (List Char)) : Prop :=
  List.Forall₂ (fun f token => ∃ o, readOperand f.kind token = .ok o) fields tokens

theorem readOperand_eq_value_iff {kind : OperandKind} {token : List Char} {w : Word}
    (hkind : kind ≠ .register) :
    readOperand kind token = .ok (.value w) ↔ readNumber token = some w := by
  rw [readOperand_eq_ok_iff]
  constructor
  · rintro (_ | h)
    · exact absurd rfl hkind
    · exact h
  · exact .number

/-- In all places but those of registers, a token is a number or an identifier. -/
theorem readOperand_of_ne {kind : OperandKind} {token : List Char} (hkind : kind ≠ .register) :
    readOperand kind token = (readNumber token).elim
      (if isIdentifier token then
        .ok (if kind = .target then .beforeLabel (labelKey token) else .label (labelKey token))
      else .error (.invalidOperand (String.ofList token)))
      fun w => .ok (.value w) := by
  cases kind with
  | register => exact absurd rfl hkind
  | immediate =>
    simp only [readOperand]
    cases readNumber token <;> rfl
  | target =>
    simp only [readOperand]
    cases readNumber token <;> rfl

theorem readOperand_eq_error {kind : OperandKind} {token : List Char} {c : Cause}
    (h : readOperand kind token = .error c) : c = .invalidOperand (String.ofList token) := by
  by_cases hkind : kind = .register
  · simp only [hkind, readOperand] at h
    split at h
    · cases h
    · cases hn : readNumber token <;> rw [hn] at h <;> cases h
      rfl
  · rw [readOperand_of_ne hkind] at h
    cases hn : readNumber token with
    | some w =>
      rw [hn] at h
      cases h
    | none =>
      rw [hn, Option.elim_none] at h
      split at h <;> cases h
      rfl

/-- A token that is neither a number nor an identifier is no operand. -/
theorem readOperand_of_none {kind : OperandKind} {token : List Char}
    (hkind : kind ≠ .register) (hn : readNumber token = none) (hid : isIdentifier token = false) :
    readOperand kind token = .error (.invalidOperand (String.ofList token)) := by
  simp [readOperand_of_ne hkind, hn, hid]

/-! ## Statements with a number -/

section Statements

variable {m token : List Char} {front back tokens : List (List Char)} {before behind : List Field}
  {f : Field} {op : Opcode} {w : Word}

/-- The operands in certain cells. -/
def readOperands (fields : List Field) (tokens : List (List Char)) : Except Cause (List Operand) :=
  (fields.zip tokens).mapM fun (f, text) => readOperand f.kind text

theorem readOperands_append (h : before.length = front.length) :
    readOperands (before ++ f :: behind) (front ++ token :: back) = do
      let os ← readOperands before front
      let o ← readOperand f.kind token
      let os' ← readOperands behind back
      return os ++ o :: os' := by
  simp [readOperands, List.zip_append h]

theorem Readable.readOperands (h : Readable before front) :
    ∃ os, readOperands before front = .ok os ∧ os.length = front.length := by
  induction h with
  | nil => exact ⟨[], rfl, rfl⟩
  | cons ho _ ih =>
    obtain ⟨o, ho⟩ := ho
    obtain ⟨os, hos, hlen⟩ := ih
    refine ⟨o :: os, ?_, by simp [hlen]⟩
    rw [Assembly.readOperands, List.zip_cons_cons, List.mapM_cons]
    exact bind_eq_ok_iff.mpr ⟨o, ho, bind_eq_ok_iff.mpr ⟨os, hos, rfl⟩⟩

theorem readWords_origin (hm : Text.upper m = "ORG".toList) :
    readWords (Text.upper m) [token] = (readOrigin token).map .origin := by
  simp only [readWords, hm, if_true]
  show (readOrigin token >>= fun w => pure (Statement.origin w)) = _
  cases readOrigin token <;> rfl

theorem readWords_data (hm : Text.upper m = "DAT".toList ∨ Text.upper m = "DATA".toList) :
    readWords (Text.upper m) [token] = (readOperand .immediate token).map .data := by
  have horg : Text.upper m ≠ "ORG".toList := by rcases hm with hm | hm <;> rw [hm] <;> decide
  simp only [readWords, if_neg horg, if_pos hm]
  show (readOperand .immediate token >>= fun o => pure (Statement.data o)) = _
  cases readOperand .immediate token <;> rfl

theorem readWords_instruction (hm : (Text.upper m).map Char.toUpper = op.mnemonic.toList)
    (h : tokens.length = op.fields.length) :
    readWords (Text.upper m) tokens = (readOperands op.fields tokens).map (.instruction op) := by
  have hop := ofMnemonic?_eq_some_iff.mpr hm
  have hnone : ∀ {text : List Char}, Text.upper m = text → Opcode.ofMnemonic? text ≠ none := by
    rintro _ rfl hnone
    rw [hnone] at hop
    cases hop
  have horg : Text.upper m ≠ "ORG".toList :=
    fun h => hnone h (ofMnemonic?_directive (.inl rfl))
  have hdat : ¬(Text.upper m = "DAT".toList ∨ Text.upper m = "DATA".toList) :=
    fun h => hnone rfl (ofMnemonic?_directive (.inr h))
  simp only [readWords, if_neg horg, if_neg hdat, hop, h, checkCount, if_true]
  show (readOperands op.fields tokens >>= fun os => pure (Statement.instruction op os)) = _
  cases readOperands op.fields tokens <;> rfl

theorem length_eq_fields (hf : op.fields = before ++ f :: behind)
    (hfront : front.length = before.length) (hback : back.length = behind.length) :
    (front ++ token :: back).length = op.fields.length := by
  rw [hf, List.length_append, List.length_append, List.length_cons, List.length_cons, hfront, hback]

/-- Where the other operands are read, a statement has a number in a place for one just if the token
there is read as this number. -/
theorem number?_readWords_iff (hplace : NumberPlace m before behind)
    (hfront : Readable before front) (hback : Readable behind back) :
    (∃ s, readWords (Text.upper m) (front ++ token :: back) = .ok s ∧
      s.number? front.length = some w) ↔ readNumber token = some w := by
  cases hplace with
  | origin hm =>
    cases hfront
    cases hback
    rw [List.nil_append, readWords_origin hm, ← readOrigin_eq_ok_iff]
    cases readOrigin token <;> simp [Except.map, Statement.number?]
  | data hm =>
    cases hfront
    cases hback
    have himmediate : OperandKind.immediate ≠ .register := nofun
    rw [List.nil_append, readWords_data hm, ← readOperand_eq_value_iff himmediate]
    cases readOperand .immediate token with
    | error c => simp [Except.map]
    | ok o => cases o <;> simp [Except.map, Statement.number?, Operand.number?]
  | operand hm hf hkind =>
    -- Each token in front gives one operand, so the token is read to the place it stands in.
    obtain ⟨os, hos, hlen⟩ := hfront.readOperands
    obtain ⟨os', hos', -⟩ := hback.readOperands
    rw [readWords_instruction hm (length_eq_fields hf hfront.length_eq.symm hback.length_eq.symm),
      hf, readOperands_append hfront.length_eq, hos, hos', ← readOperand_eq_value_iff hkind]
    cases readOperand _ token with
    | error c => simp [Except.map, bind, Except.bind]
    | ok o =>
      cases o <;> simp [Except.map, bind, Except.bind, pure, Except.pure, Statement.number?,
        Operand.number?, ← hlen]

/-- A token that is neither a number nor an identifier is reported from a place for a number,
unless an operand in front of it is. -/
theorem readWords_rejects (hplace : NumberPlace m before behind)
    (hfront : front.length = before.length) (hback : back.length = behind.length)
    (hn : readNumber token = none) (hid : isIdentifier token = false) :
    ∃ c, readWords (Text.upper m) (front ++ token :: back) = .error c ∧
      ∃ t ∈ front ++ [token], c.syntaxText? = some (String.ofList t) := by
  have hnil : ∀ {xs : List (List Char)}, xs.length = 0 → xs = [] := List.eq_nil_of_length_eq_zero
  cases hplace with
  | origin hm =>
    rw [hnil hfront, hnil hback, List.nil_append, readWords_origin hm, readOrigin, hn]
    exact ⟨_, rfl, token, List.mem_singleton_self token, rfl⟩
  | data hm =>
    have himmediate : OperandKind.immediate ≠ .register := nofun
    rw [hnil hfront, hnil hback, List.nil_append, readWords_data hm,
      readOperand_of_none himmediate hn hid]
    exact ⟨_, rfl, token, List.mem_singleton_self token, rfl⟩
  | operand hm hf hkind =>
    rw [readWords_instruction hm (length_eq_fields hf hfront hback), hf,
      readOperands_append hfront.symm, readOperand_of_none hkind hn hid]
    -- An operand in front is reported first, if it is not read.
    cases hos : readOperands before front with
    | ok os => exact ⟨_, rfl, token, List.mem_append_right _ (List.mem_singleton_self token), rfl⟩
    | error c =>
      obtain ⟨pre, p, post, hzip, -, hp⟩ := mapM_eq_error_iff.mp hos
      have hmem : p ∈ before.zip front := hzip ▸ List.mem_append_right _ List.mem_cons_self
      refine ⟨c, rfl, p.2, List.mem_append_left _ (List.of_mem_zip hmem).2, ?_⟩
      rw [readOperand_eq_error hp]
      rfl

end Statements

/-! ## Sources -/

/-- The assembler gets to the statement `text` in the line of a source with the number `number`:
the lines in front of this one are read, and so is the label of this one, if it has one. -/
inductive Reached (source : String) : Nat → List Char → Prop where
  | mk {front back : List (List Char)} {line text : List Char} {label : Option (List Char)}
      {a b : Assembler} (hlines : Text.lines source.toList = front ++ line :: back)
      (ha : Assembler.addLines {} 1 front = .ok a)
      (hsplit : splitLabel (Text.trim (Text.uncomment line)) = (label, text))
      (hb : a.labelled label = .ok b) : Reached source (front.length + 1) text

/-- A source is rejected with the error of a statement that the assembler gets to. -/
theorem Reached.assemble_eq_error {source : String} {number : Nat} {text : List Char} {c : Cause}
    (h : Reached source number text) (hc : readStatement text = .error c) :
    assemble source = .error ⟨number, c⟩ := by
  obtain ⟨hlines, ha, hsplit, hb⟩ := h
  rename_i front back line label a b
  have hline : a.addLine (1 + front.length) line = .error ⟨front.length + 1, c⟩ := by
    rw [Assembler.addLine, Assembler.addText_eq, hsplit, Nat.add_comm]
    refine mapError_eq_error_iff.mpr ⟨c, bind_eq_error_iff.mpr (.inr ⟨b, hb, ?_⟩), rfl⟩
    exact bind_eq_error_iff.mpr (.inl hc)
  refine bind_eq_error_iff.mpr (.inl ?_)
  rw [hlines, Assembler.addLines_append]
  exact bind_eq_error_iff.mpr (.inr ⟨a, ha, bind_eq_error_iff.mpr (.inl hline)⟩)

/-- In a place for a number, the assembler reads the numbers of the grammar, and hexadecimal digits
behind a plus sign too. What is neither a number nor an identifier is a syntax error. -/
theorem number_operands {line m token : List Char} {front back : List (List Char)}
    {before behind : List Field}
    (hwords : Text.words isSeparator line = m :: (front ++ token :: back))
    (hplace : NumberPlace m before behind) (hfront : front.length = before.length)
    (hback : back.length = behind.length) :
    (Readable before front → Readable behind back → ∀ w,
      (∃ s, readStatement line = .ok (some s) ∧ s.number? front.length = some w) ↔
        NumberForm token w ∨ HexForm ['+'] token w) ∧
    ((∀ w, ¬(NumberForm token w ∨ HexForm ['+'] token w)) → isIdentifier token = false →
      ∃ c, readStatement line = .error c ∧
        (∃ t ∈ front ++ [token], c.syntaxText? = some (String.ofList t)) ∧
        ∀ source number, Reached source number line → assemble source = .error ⟨number, c⟩) := by
  have hread : readStatement line =
      (readWords (Text.upper m) (front ++ token :: back)).map some := by
    rw [readStatement, hwords]
  refine ⟨?_, ?_⟩
  · intro hreadable hreadable' w
    rw [← readNumber_eq_some_iff, ← number?_readWords_iff hplace hreadable hreadable', hread]
    simp only [map_eq_ok_iff, Option.some.injEq, exists_eq_right]
  · intro hnumber hid
    have hn : readNumber token = none := by
      rw [Option.eq_none_iff_forall_ne_some]
      intro w hw
      exact hnumber w (readNumber_eq_some_iff.mp hw)
    obtain ⟨c, hc, hshown⟩ := readWords_rejects hplace hfront hback hn hid
    have herror : readStatement line = .error c := by
      rw [hread]
      exact map_eq_error_iff.mpr hc
    exact ⟨c, herror, hshown, fun source number h => h.assemble_eq_error herror⟩

/-- A plus sign between `0x` and the digits is read over. -/
theorem number_operands_hex_plus :
    ∃ s, readStatement "DAT 0x+5".toList = .ok (some s) ∧ s.number? 0 = some 5 := by
  have hwords : Text.words isSeparator "DAT 0x+5".toList =
      "DAT".toList :: ([] ++ "0x+5".toList :: []) := by decide
  have hread := (number_operands hwords (.data (.inl (by decide))) rfl rfl).1 .nil .nil 5
  have hdigits : Text.IsHexNumeral ['5'] 5 :=
    ⟨by simp, List.forall_mem_singleton.mpr (by decide), rfl, by decide⟩
  exact hread.mpr (.inr (.mk false (.inl rfl) hdigits))

/-- A source whose number is none by the grammar, and no identifier either, assembles. -/
theorem number_outside_grammar :
    assemble "DAT 0x+5" = .ok #[5] ∧ isIdentifier "0x+5".toList = false ∧
      ¬∃ w, NumberForm "0x+5".toList w := by
  refine ⟨by decide, by decide, ?_⟩
  rintro ⟨w, h⟩
  have hdigits : Text.IsHexNumeral ['5'] 5 :=
    ⟨by simp, List.forall_mem_singleton.mpr (by decide), rfl, by decide⟩
  have hplus : HexForm ['+'] "0x+5".toList 5 := .mk false (.inl rfl) hdigits
  exact hplus.not_numberForm h

end Assembly

end CellMachine
