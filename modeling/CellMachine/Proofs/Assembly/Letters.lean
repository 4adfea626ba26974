import CellMachine.Proofs.Assembly.Number

/-!
# CellMachine.Proofs.Assembly.Letters

Texts that differ in the case of ASCII letters only are read alike.

* `Text.SameLetters`   — the relation: in capitals, the texts are equal.
* `Text.apply_toUpper` — functions of characters that do not see the case of letters.
* `readNumber_map_toUpper`, `isIdentifier_map_toUpper`, `ofName?_map_toUpper`,
  `upper_map_toUpper` — the readers of tokens do not see it either.
-/

namespace CellMachine

namespace Text

/-- The texts differ in the case of ASCII letters only. -/
def SameLetters (cs ds : List Char) : Prop := cs.map Char.toUpper = ds.map Char.toUpper

instance (cs ds : List Char) : Decidable (SameLetters cs ds) := inferInstanceAs (Decidable (_ = _))

/-- What takes a text for its capitals takes such texts for each other. -/
theorem SameLetters.apply_eq {α : Type} {cs ds : List Char} (h : SameLetters cs ds)
    {f : List Char → α} (hf : ∀ cs, f (cs.map Char.toUpper) = f cs) : f cs = f ds := by
  rw [← hf cs, ← hf ds, h]

/-! ## Characters -/

/-- Only ASCII letters have capitals. -/
theorem toUpper_of_ge {c : Char} (h : 128 ≤ c.toNat) : c.toUpper = c := by
  unfold Char.toUpper
  refine dif_neg fun hc => ?_
  have hle := UInt32.le_iff_toNat_le.mp hc.2
  exact absurd (Nat.le_trans h hle) (by decide)

/-- A function of characters does not see the case of letters if it does not for ASCII characters,
which can be checked one by one. -/
theorem apply_toUpper {α : Type} {f : Char → α}
    (h : ∀ n < 128, f (Char.ofNat n).toUpper = f (Char.ofNat n)) (c : Char) :
    f c.toUpper = f c := by
  rcases Nat.lt_or_ge c.toNat 128 with hlt | hge
  · have hc := h c.toNat hlt
    rw [Char.ofNat_toNat] at hc
    exact hc
  · rw [toUpper_of_ge hge]

section Characters

variable (c : Char)

@[simp] theorem isDigit_toUpper : c.toUpper.isDigit = c.isDigit :=
  apply_toUpper (by decide +kernel) c

@[simp] theorem isAlpha_toUpper : c.toUpper.isAlpha = c.isAlpha :=
  apply_toUpper (by decide +kernel) c

@[simp] theorem isAlphanum_toUpper : c.toUpper.isAlphanum = c.isAlphanum :=
  apply_toUpper (by decide +kernel) c

@[simp] theorem toUpper_toUpper : c.toUpper.toUpper = c.toUpper :=
  apply_toUpper (by decide +kernel) c

@[simp] theorem hexValue?_toUpper : hexValue? c.toUpper = hexValue? c :=
  apply_toUpper (by decide +kernel) c

@[simp] theorem isBlank_toUpper : isBlank c.toUpper = isBlank c :=
  apply_toUpper (by decide +kernel) c

@[simp] theorem upperChar_toUpper : upperChar c.toUpper = upperChar c :=
  apply_toUpper (by decide +kernel) c

/-- Characters with a meaning in a source that are no letters. -/
def marks : List Char := ['-', '+', '_', '0', ':', ';']

/-- A mark is the capital of itself only. -/
theorem toUpper_eq_iff {a : Char} (ha : a ∈ marks) : c.toUpper = a ↔ c = a := by
  have hplace : marks.idxOf c.toUpper = marks.idxOf c :=
    apply_toUpper (f := fun c => marks.idxOf c) (by decide +kernel) c
  rw [eq_comm, ← List.idxOf_inj ha, hplace, List.idxOf_inj ha, eq_comm]

theorem toUpper_hexMark_iff : c.toUpper = 'x' ∨ c.toUpper = 'X' ↔ c = 'x' ∨ c = 'X' :=
  decide_eq_decide.mp
    (apply_toUpper (f := fun c => decide (c = 'x' ∨ c = 'X')) (by decide +kernel) c)

end Characters

theorem mem_map_toUpper_iff {a : Char} (ha : a ∈ marks) {cs : List Char} :
    a ∈ cs.map Char.toUpper ↔ a ∈ cs := by
  simp only [List.mem_map, toUpper_eq_iff _ ha, exists_eq_right]

/-! ## Texts -/

theorem upper_map_toUpper (cs : List Char) : upper (cs.map Char.toUpper) = upper cs := by
  simp [upper, List.flatMap_map]

theorem map_toUpper_of_isDigit {digits : List Char} (h : ∀ c ∈ digits, c.isDigit = true) :
    digits.map Char.toUpper = digits := by
  have hupper : ∀ c ∈ digits, c.toUpper = c := by
    intro c hc
    have hdigit := isDigit_iff.mp (h c hc)
    exact toUpper_of_lt (by omega)
  rw [List.map_congr_left hupper, List.map_id']

theorem hexDigits?_map_toUpper (cs : List Char) :
    hexDigits? (cs.map Char.toUpper) = hexDigits? cs := by
  simp [hexDigits?, List.foldlM_map]

theorem dropPlus_map_toUpper (cs : List Char) :
    dropPlus (cs.map Char.toUpper) = (dropPlus cs).map Char.toUpper := by
  cases cs with
  | nil => rfl
  | cons c cs =>
    by_cases hc : c = '+'
    · rw [hc]
      rfl
    · have hupper : c.toUpper ≠ '+' := mt (toUpper_eq_iff c (by decide)).mp hc
      simp [dropPlus, hc, hupper]

theorem readHex_map_toUpper (cs : List Char) : readHex (cs.map Char.toUpper) = readHex cs := by
  simp [readHex_eq, dropPlus_map_toUpper, hexDigits?_map_toUpper]

end Text

namespace Assembly

theorem isSeparator_toUpper (c : Char) : isSeparator c.toUpper = isSeparator c :=
  Text.apply_toUpper (by decide +kernel) c

theorem ofName?_map_toUpper (text : List Char) :
    Registers.ofName? (text.map Char.toUpper) = Registers.ofName? text := by
  simp [Registers.ofName?, Function.comp_def]

theorem isIdentifier_map_toUpper (text : List Char) :
    isIdentifier (text.map Char.toUpper) = isIdentifier text := by
  have hunderscore : ∀ c : Char, (c.toUpper == '_') = (c == '_') := by
    intro c
    rw [Bool.eq_iff_iff, beq_iff_eq, beq_iff_eq]
    exact Text.toUpper_eq_iff c (by decide)
  cases text with
  | nil => rfl
  | cons c text => simp [isIdentifier, hunderscore, Function.comp_def]

theorem labelKey_map_toUpper (text : List Char) :
    labelKey (text.map Char.toUpper) = labelKey text :=
  congrArg String.ofList (Text.upper_map_toUpper text)

theorem splitMinus_map_toUpper {text body : List Char} {negative : Bool}
    (h : splitMinus text = (negative, body)) :
    splitMinus (text.map Char.toUpper) = (negative, body.map Char.toUpper) := by
  cases text with
  | nil =>
    cases h
    rfl
  | cons c text =>
    by_cases hc : c = '-'
    · subst hc
      cases h
      rfl
    · have hupper : c.toUpper ≠ '-' := mt (Text.toUpper_eq_iff c (by decide)).mp hc
      obtain ⟨rfl, rfl⟩ : false = negative ∧ c :: text = body := by simpa [splitMinus, hc] using h
      simp [splitMinus, hupper]

theorem hexDigits?_map_toUpper (body : List Char) :
    hexDigits? (body.map Char.toUpper) = (hexDigits? body).map (List.map Char.toUpper) := by
  cases h : hexDigits? body with
  | some hex =>
    obtain ⟨x, hx, rfl⟩ := hexDigits?_eq_some_iff.mp h
    exact hexDigits?_eq_some_iff.mpr ⟨x.toUpper, (Text.toUpper_hexMark_iff x).mpr hx, rfl⟩
  | none =>
    rw [Option.map_none, Option.eq_none_iff_forall_ne_some]
    intro hex hhex
    obtain ⟨x, hx, hbody⟩ := hexDigits?_eq_some_iff.mp hhex
    obtain ⟨c, rest, rfl, hc, hrest⟩ := List.map_eq_cons_iff.mp hbody
    obtain ⟨d, rest, rfl, rfl, -⟩ := List.map_eq_cons_iff.mp hrest
    obtain rfl := (Text.toUpper_eq_iff c (by decide)).mp hc
    rw [hexDigits?_eq_some_iff.mpr ⟨d, (Text.toUpper_hexMark_iff d).mp hx, rfl⟩] at h
    cases h

theorem readNumber_map_toUpper (text : List Char) :
    readNumber (text.map Char.toUpper) = readNumber text := by
  obtain ⟨negative, body, htext, hs⟩ := exists_signed text
  have hs' := splitMinus_map_toUpper hs
  cases hb : hexDigits? body with
  | some hex =>
    have hb' := hexDigits?_map_toUpper body
    rw [hb] at hb'
    rw [readNumber_of_hex hs hb, readNumber_of_hex hs' hb', Text.readHex_map_toUpper]
  | none =>
    have hb' := hexDigits?_map_toUpper body
    rw [hb] at hb'
    by_cases hd : ∀ c ∈ body, c.isDigit = true
    · -- The digits are their own capitals, and so is the whole text.
      have hcapital : text.map Char.toUpper = text := by
        rw [htext, signed]
        cases negative <;> simp [Text.map_toUpper_of_isDigit hd]
      rw [hcapital]
    · have hall : body.all Char.isDigit = false := by
        rw [Bool.eq_false_iff, ne_eq, List.all_eq_true]
        exact hd
      have hall' : (body.map Char.toUpper).all Char.isDigit = false := by
        simpa [Function.comp_def] using hall
      simp only [readNumber, hs, hs', hb, hb', hall, hall', Option.map_none, Bool.false_eq_true,
        if_false]

/-! ## Labels, operands and statements -/

/-- The causes are the same but for the case of letters in the text that they show. -/
inductive Cause.Alike : Cause → Cause → Prop where
  | refl (c : Cause) : Alike c c
  | invalidLabel {cs ds : List Char} (h : Text.SameLetters cs ds) :
      Alike (.invalidLabel (String.ofList cs)) (.invalidLabel (String.ofList ds))
  | invalidOperand {cs ds : List Char} (h : Text.SameLetters cs ds) :
      Alike (.invalidOperand (String.ofList cs)) (.invalidOperand (String.ofList ds))
  | invalidOrigin {cs ds : List Char} (h : Text.SameLetters cs ds) :
      Alike (.invalidOrigin (String.ofList cs)) (.invalidOrigin (String.ofList ds))

section Readers

variable {cs ds : List Char} {tokens tokens' : List (List Char)}

theorem readLabel_alike (h : Text.SameLetters cs ds) :
    SameOutcome Cause.Alike (readLabel cs) (readLabel ds) := by
  rw [readLabel, readLabel, h.apply_eq isIdentifier_map_toUpper, h.apply_eq ofName?_map_toUpper,
    h.apply_eq labelKey_map_toUpper]
  split
  · exact .ok _
  · exact .error (.invalidLabel h)

theorem readOrigin_alike (h : Text.SameLetters cs ds) :
    SameOutcome Cause.Alike (readOrigin cs) (readOrigin ds) := by
  rw [readOrigin, readOrigin, h.apply_eq readNumber_map_toUpper]
  split
  · exact .ok _
  · exact .error (.invalidOrigin h)

theorem readOperand_alike (kind : OperandKind) (h : Text.SameLetters cs ds) :
    SameOutcome Cause.Alike (readOperand kind cs) (readOperand kind ds) := by
  have hn := h.apply_eq readNumber_map_toUpper
  by_cases hkind : kind = .register
  · simp only [hkind, readOperand, hn, h.apply_eq ofName?_map_toUpper]
    split
    · exact .ok _
    · cases readNumber ds with
      | none => exact .error (.invalidOperand h)
      | some w => exact .ok _
  · rw [readOperand_of_ne hkind, readOperand_of_ne hkind, hn,
      h.apply_eq isIdentifier_map_toUpper, h.apply_eq labelKey_map_toUpper]
    cases readNumber ds with
    | some w => exact .ok _
    | none =>
      simp only [Option.elim_none]
      split
      · exact .ok _
      · exact .error (.invalidOperand h)

theorem headD_sameLetters (h : List.Forall₂ Text.SameLetters tokens tokens') :
    Text.SameLetters (tokens.headD []) (tokens'.headD []) := by
  cases h with
  | nil => rfl
  | cons h _ => exact h

theorem readOperands_alike (fields : List Field)
    (h : List.Forall₂ Text.SameLetters tokens tokens') :
    SameOutcome Cause.Alike (readOperands fields tokens) (readOperands fields tokens') := by
  refine SameOutcome.mapM ?_
  induction h generalizing fields with
  | nil => simp
  | cons hc _ ih =>
    cases fields with
    | nil => exact .nil
    | cons f fields => exact .cons (readOperand_alike f.kind hc) (ih fields)

theorem readWords_alike (mnemonic : List Char) (h : List.Forall₂ Text.SameLetters tokens tokens') :
    SameOutcome Cause.Alike (readWords mnemonic tokens) (readWords mnemonic tokens') := by
  have hcount : ∀ expected, SameOutcome Cause.Alike (checkCount mnemonic expected tokens.length)
      (checkCount mnemonic expected tokens'.length) := by
    intro expected
    rw [h.length_eq]
    exact .refl .refl _
  simp only [readWords]
  split
  · exact (hcount 1).bind fun _ => (readOrigin_alike (headD_sameLetters h)).bind fun w => .ok _
  · split
    · exact (hcount 1).bind fun _ =>
        (readOperand_alike .immediate (headD_sameLetters h)).bind fun o => .ok _
    · split
      · exact .error (.refl _)
      · rename_i op _
        exact (hcount op.fields.length).bind fun _ =>
          (readOperands_alike op.fields h).bind fun os => .ok _

/-- The statement of tokens. -/
def readTokens : List (List Char) → Except Cause (Option Statement)
  | [] => .ok none
  | mnemonic :: operands => (readWords (Text.upper mnemonic) operands).map some

theorem readTokens_alike (h : List.Forall₂ Text.SameLetters tokens tokens') :
    SameOutcome Cause.Alike (readTokens tokens) (readTokens tokens') := by
  cases h with
  | nil => exact .ok none
  | cons hm h =>
    rw [readTokens, readTokens, hm.apply_eq Text.upper_map_toUpper]
    exact (readWords_alike _ h).map

end Readers

namespace Assembler

theorem labelled_alike (a : Assembler) {label label' : Option (List Char)}
    (h : Option.Rel Text.SameLetters label label') :
    SameOutcome Cause.Alike (a.labelled label) (a.labelled label') := by
  cases h with
  | none => exact .ok a
  | some h => exact (readLabel_alike h).bind fun key => .refl .refl _

end Assembler

end Assembly

end CellMachine
