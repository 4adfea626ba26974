import CellMachine.Proofs.Assembly.Passes
import CellMachine.Proofs.Text.Lines
import Mathlib.Order.Bounds.Defs

/-!
# CellMachine.Proofs.Assembly.Rejection

Which error a source is rejected with.

* `Assembler.addLines_eq_error` — the first pass stops at a line, whatever follows that line.
* `numberedReferences`          — the labels that a source refers to, in order.
* `Emitted.resolve_eq_error`    — the second pass stops at the first of them that is not defined.
* `assemble_first_error`        — the error of a source, and what it depends on.
-/

namespace CellMachine.Assembly

/-- The error is that of a label that is referred to and not defined. -/
def Error.IsUndefined (e : Error) : Prop := ∃ label, e.cause = .undefinedLabel label

/-! ## Lines do not report undefined labels -/

section Readers

variable {kind : OperandKind} {text mnemonic : List Char} {key : String}

theorem readLabel_ne_undefined : readLabel text ≠ .error (.undefinedLabel key) := by
  unfold readLabel
  split <;> exact nofun

theorem readOperand_ne_undefined : readOperand kind text ≠ .error (.undefinedLabel key) := by
  intro h
  cases kind <;> simp only [readOperand] at h
  · split at h
    · cases h
    · cases hn : readNumber text <;> rw [hn] at h <;> cases h
  all_goals
    split at h
    · cases h
    · split at h <;> cases h

theorem readOrigin_ne_undefined : readOrigin text ≠ .error (.undefinedLabel key) := by
  unfold readOrigin
  split <;> exact nofun

theorem checkCount_ne_undefined {expected found : Nat} :
    checkCount mnemonic expected found ≠ .error (.undefinedLabel key) := by
  unfold checkCount
  split <;> exact nofun

theorem readWords_ne_undefined {operands : List (List Char)} :
    readWords mnemonic operands ≠ .error (.undefinedLabel key) := by
  intro h
  simp only [readWords] at h
  split at h
  · rcases bind_eq_error_iff.mp h with h | ⟨_, -, h⟩
    · exact checkCount_ne_undefined h
    · rcases bind_eq_error_iff.mp h with h | ⟨_, -, ⟨⟩⟩
      exact readOrigin_ne_undefined h
  · split at h
    · rcases bind_eq_error_iff.mp h with h | ⟨_, -, h⟩
      · exact checkCount_ne_undefined h
      · rcases bind_eq_error_iff.mp h with h | ⟨_, -, ⟨⟩⟩
        exact readOperand_ne_undefined h
    · split at h
      · cases h
      · rcases bind_eq_error_iff.mp h with h | ⟨_, -, h⟩
        · exact checkCount_ne_undefined h
        · rcases bind_eq_error_iff.mp h with h | ⟨_, -, ⟨⟩⟩
          obtain ⟨-, p, -, -, -, h⟩ := mapM_eq_error_iff.mp h
          exact readOperand_ne_undefined h

theorem readStatement_ne_undefined : readStatement text ≠ .error (.undefinedLabel key) := by
  unfold readStatement
  split
  · exact nofun
  · intro h
    exact readWords_ne_undefined (map_eq_error_iff.mp h)

end Readers

namespace Assembler

variable {a b : Assembler} {line : Nat} {text : List Char} {key : String} {e : Error}

theorem define_ne_undefined {label : String} : a.define label ≠ .error (.undefinedLabel key) := by
  unfold define
  split <;> exact nofun

theorem emit_ne_undefined {s : Statement} : a.emit line s ≠ .error (.undefinedLabel key) := by
  cases s with
  | origin w =>
    intro h
    rw [emit, moveTo] at h
    split at h
    · cases h
    · split at h <;> cases h
  | data o =>
    intro h
    cases h
  | instruction op os =>
    intro h
    cases h

theorem addText_ne_undefined : a.addText line text ≠ .error (.undefinedLabel key) := by
  unfold addText
  obtain ⟨label, rest⟩ := splitLabel (Text.trim (Text.uncomment text))
  have hrest : ∀ (b : Assembler) (s : Option Statement),
      s.elim (.ok b) (b.emit line) ≠ .error (.undefinedLabel key) := by
    intro b s
    cases s with
    | none => exact nofun
    | some s => exact emit_ne_undefined
  cases label with
  | none =>
    intro h
    rcases bind_eq_error_iff.mp h with ⟨⟨⟩⟩ | ⟨b, -, h⟩
    rcases bind_eq_error_iff.mp h with h | ⟨s, -, h⟩
    · exact readStatement_ne_undefined h
    · exact hrest b s (by cases s <;> exact h)
  | some name =>
    intro h
    rcases bind_eq_error_iff.mp h with h | ⟨_, -, h⟩
    · exact readLabel_ne_undefined h
    rcases bind_eq_error_iff.mp h with h | ⟨b, -, h⟩
    · exact define_ne_undefined h
    rcases bind_eq_error_iff.mp h with h | ⟨s, -, h⟩
    · exact readStatement_ne_undefined h
    · exact hrest b s (by cases s <;> exact h)

/-- The error of a line names the line. -/
theorem addLine_eq_error (h : a.addLine line text = .error e) :
    e.line = line ∧ ¬e.IsUndefined := by
  obtain ⟨cause, hcause, rfl⟩ := mapError_eq_error_iff.mp h
  refine ⟨rfl, ?_⟩
  rintro ⟨label, hlabel⟩
  have hlabel : cause = .undefinedLabel label := hlabel
  rw [hlabel] at hcause
  exact addText_ne_undefined hcause

/-! ## The first pass stops at a line -/

theorem addLines_append (a : Assembler) (line : Nat) (front back : List (List Char)) :
    a.addLines line (front ++ back) =
      a.addLines line front >>= fun b => b.addLines (line + front.length) back := by
  induction front generalizing a line with
  | nil => rfl
  | cons text front ih =>
    rw [List.cons_append, addLines, addLines, bind_assoc]
    refine congrArg _ (funext fun b => ?_)
    rw [ih, List.length_cons, Nat.add_right_comm, Nat.add_assoc]

theorem addLines_append_of_error {front : List (List Char)} (h : a.addLines line front = .error e)
    (back : List (List Char)) : a.addLines line (front ++ back) = .error e := by
  rw [addLines_append]
  exact bind_eq_error_iff.mpr (.inl h)

theorem exists_addLines_of_append {front back : List (List Char)}
    (h : a.addLines line (front ++ back) = .ok b) : ∃ c, a.addLines line front = .ok c := by
  rw [addLines_append] at h
  obtain ⟨c, hc, -⟩ := bind_eq_ok_iff.mp h
  exact ⟨c, hc⟩

/-- The lines up to the one that an error names are rejected with this error, and those in front of
it are not rejected. -/
theorem addLines_eq_error {texts : List (List Char)} (h : a.addLines line texts = .error e) :
    ¬e.IsUndefined ∧ ∃ front text back, texts = front ++ text :: back ∧
      e.line = line + front.length ∧ a.addLines line (front ++ [text]) = .error e ∧
      ∃ b, a.addLines line front = .ok b := by
  induction texts generalizing a line with
  | nil => cases h
  | cons text texts ih =>
    rcases bind_eq_error_iff.mp h with h | ⟨b, hb, h⟩
    · obtain ⟨hline, hdefined⟩ := addLine_eq_error h
      exact ⟨hdefined, [], text, texts, rfl, hline, bind_eq_error_iff.mpr (.inl h), a, rfl⟩
    · obtain ⟨hdefined, front, text', back, rfl, hline, hfail, c, hc⟩ := ih h
      refine ⟨hdefined, text :: front, text', back, rfl, ?_, bind_eq_error_iff.mpr ?_, c,
        bind_eq_ok_iff.mpr ⟨b, hb, hc⟩⟩
      · rw [hline, List.length_cons, Nat.add_assoc, Nat.add_comm 1]
      · exact .inr ⟨b, hb, hfail⟩

end Assembler

/-! ## References -/

/-- The labels that lines refer to, each with the number of its line; the first line has the number
`n`. -/
def numberedReferences (n : Nat) : List Line → List (Nat × String)
  | [] => []
  | l :: ls => l.references.map (n, ·) ++ numberedReferences (n + 1) ls

/-- The reference that a patch was noted for. -/
def Patch.reference (p : Patch) : Nat × String := (p.line, p.label)

namespace Assembler

/-- The references that are noted, the last one first. -/
def noted (a : Assembler) : List (Nat × String) := a.patches.map Patch.reference

variable {a a' : Assembler} {line : Nat}

theorem noted_operand (a : Assembler) (line pos : Nat) (o : Operand) :
    (a.operand line pos o).2.noted = o.reference?.toList.map (line, ·) ++ a.noted := by
  cases o <;> rfl

theorem noted_operands (a : Assembler) (line pos : Nat) (os : List Operand) :
    (a.operands line pos os).2.noted =
      ((os.filterMap Operand.reference?).map (line, ·)).reverse ++ a.noted := by
  induction os generalizing a pos with
  | nil => rfl
  | cons o os ih =>
    show ((a.operand line pos o).2.operands line (pos + 1) os).2.noted = _
    rw [ih, noted_operand]
    cases h : o.reference? with
    | none => simp only [List.filterMap_cons, h, Option.toList_none, List.map_nil, List.nil_append]
    | some key =>
      simp only [List.filterMap_cons, h, Option.toList_some, List.map_cons, List.map_nil,
        List.reverse_cons, List.append_assoc]

theorem noted_emit {s : Statement} (h : a.emit line s = .ok a') :
    a'.noted = ((s.operands.filterMap Operand.reference?).map (line, ·)).reverse ++ a.noted := by
  cases s with
  | origin w =>
    simp only [emit, moveTo] at h
    split at h
    · cases h
    · split at h <;> cases h
      rfl
  | data o =>
    cases h
    show (a.operand line a.addr o).2.noted = _
    rw [noted_operand]
    cases o <;> rfl
  | instruction op os =>
    cases h
    exact noted_operands a line (a.addr + 1) os

theorem noted_place {l : Line} (h : a.place line l = .ok a') :
    a'.noted = (l.references.map (line, ·)).reverse ++ a.noted := by
  obtain ⟨b, hb, h⟩ := bind_eq_ok_iff.mp h
  have hnoted : b.noted = a.noted := by
    cases hl : l.label with
    | none =>
      rw [hl] at hb
      cases hb
      rfl
    | some key =>
      rw [hl, Option.elim_some, Assembler.define] at hb
      split at hb <;> cases hb
      rfl
  rw [← hnoted, Line.references]
  cases hs : l.statement with
  | none =>
    rw [hs] at h
    cases h
    rfl
  | some s =>
    rw [hs] at h
    exact noted_emit h

theorem noted_addLines {texts : List (List Char)} {ls : List Line}
    (hls : List.Forall₂ LineForm texts ls) (h : a.addLines line texts = .ok a') :
    a'.noted = (numberedReferences line ls).reverse ++ a.noted := by
  induction hls generalizing a line with
  | nil =>
    cases h
    rfl
  | @cons text l texts ls hl hls ih =>
    obtain ⟨b, hb, h⟩ := bind_eq_ok_iff.mp h
    obtain ⟨l', hl', hb⟩ := addLine_eq_ok_iff.mp hb
    obtain rfl : l' = l := Except.ok.inj (hl'.symm.trans (readLine_eq_ok_iff.mpr hl))
    rw [ih h, noted_place hb, numberedReferences, List.reverse_append, List.append_assoc]

/-! ## The second pass stops at a reference -/

theorem patchAll_eq_error {ps : List Patch} {cells : Array Word} {e : Error}
    (h : ps.foldlM a.patch cells = .error e) :
    ∃ front p back, ps = front ++ p :: back ∧ (∀ q ∈ front, a.address? q.label ≠ none) ∧
      a.address? p.label = none ∧ e = ⟨p.line, .undefinedLabel p.label⟩ := by
  induction ps generalizing cells with
  | nil => cases h
  | cons p ps ih =>
    rw [List.foldlM_cons] at h
    cases hp : a.address? p.label with
    | none =>
      simp only [patch, hp] at h
      cases h
      exact ⟨[], p, ps, rfl, List.forall_mem_nil _, hp, rfl⟩
    | some addr =>
      simp only [patch, hp] at h
      obtain ⟨front, q, back, rfl, hfront, hq, rfl⟩ := ih h
      refine ⟨p :: front, q, back, rfl, List.forall_mem_cons.mpr ⟨?_, hfront⟩, hq, rfl⟩
      rw [hp]
      exact Option.some_ne_none addr

theorem Emitted.address?_eq_none_iff {ls : List Line} (h : Emitted ls a) {key : String} :
    a.address? key = none ↔ key ∉ labels ls := by
  rw [h.symbols]
  split
  · exact ⟨nofun, fun hkey => absurd ‹_› hkey⟩
  · exact ⟨fun _ => ‹_›, fun _ => rfl⟩

theorem Emitted.resolve_eq_error {ls : List Line} (h : Emitted ls a)
    (hnoted : a.noted = (numberedReferences 1 ls).reverse) {e : Error}
    (he : a.resolve = .error e) :
    ∃ front key back, numberedReferences 1 ls = front ++ (e.line, key) :: back ∧
      e.cause = .undefinedLabel key ∧ key ∉ labels ls ∧ ∀ r ∈ front, r.2 ∈ labels ls := by
  obtain ⟨front, p, back, hsplit, hfront, hp, rfl⟩ := patchAll_eq_error he
  have hrefs : numberedReferences 1 ls = (front ++ p :: back).map Patch.reference := by
    rw [← hsplit, List.map_reverse]
    exact (List.reverse_eq_iff.mpr hnoted).symm
  refine ⟨front.map Patch.reference, p.label, back.map Patch.reference, ?_, rfl,
    h.address?_eq_none_iff.mp hp, fun r hr => ?_⟩
  · rw [hrefs, List.map_append, List.map_cons]
    rfl
  · obtain ⟨q, hq, rfl⟩ := List.mem_map.mp hr
    by_contra hmem
    exact hfront q hq (h.address?_eq_none_iff.mpr hmem)

end Assembler

/-! ## Sources -/

/-- The first `n` lines of a source. -/
def firstLines (n : Nat) (source : String) : String :=
  String.ofList (Text.firstLines n source.toList)

theorem lines_firstLines (n : Nat) (source : String) :
    Text.lines (firstLines n source).toList = (Text.lines source.toList).take n := by
  rw [firstLines, String.toList_ofList, Text.lines_firstLines]

/-- A source is rejected in the first pass if its error is not that of an undefined label. -/
theorem addLines_eq_error_iff {source : String} {e : Error} :
    Assembler.addLines {} 1 (Text.lines source.toList) = .error e ↔
      assemble source = .error e ∧ ¬e.IsUndefined := by
  rw [assemble, bind_eq_error_iff]
  constructor
  · intro h
    exact ⟨.inl h, (Assembler.addLines_eq_error h).1⟩
  · rintro ⟨h | ⟨a, -, h⟩, hdefined⟩
    · exact h
    · obtain ⟨-, p, -, -, -, -, rfl⟩ := Assembler.patchAll_eq_error h
      exact absurd ⟨p.label, rfl⟩ hdefined

/-- What an error of the first pass depends on: no line before the one that it names, and none after
it. -/
theorem isLeast_of_addLines_eq_error {source : String} {e : Error}
    (h : Assembler.addLines {} 1 (Text.lines source.toList) = .error e) :
    IsLeast {i | ∃ e', assemble (firstLines i source) = .error e' ∧ ¬e'.IsUndefined} e.line ∧
      ∀ source', (Text.lines source'.toList).take e.line = (Text.lines source.toList).take e.line →
        assemble source' = .error e := by
  obtain ⟨-, front, text, back, hsplit, hline, hfail, b, hb⟩ := Assembler.addLines_eq_error h
  have htake : (Text.lines source.toList).take e.line = front ++ [text] := by
    rw [hsplit, hline, Nat.add_comm, List.take_length_add_append, List.take_succ_cons,
      List.take_zero]
  refine ⟨⟨⟨e, addLines_eq_error_iff.mp ?_⟩, ?_⟩, fun source' hsource' => ?_⟩
  · rw [lines_firstLines, htake]
    exact hfail
  · rintro i ⟨e', he'⟩
    by_contra hlt
    rw [hline] at hlt
    -- Fewer lines are in front of the one that is rejected.
    have hi : i ≤ front.length := by omega
    have hstart : front.take i ++ front.drop i = front := List.take_append_drop i front
    rw [← hstart] at hb
    obtain ⟨c, hc⟩ := Assembler.exists_addLines_of_append hb
    rw [← addLines_eq_error_iff, lines_firstLines, hsplit, List.take_append_of_le_length hi,
      hc] at he'
    cases he'
  · refine (addLines_eq_error_iff.mp ?_).1
    rw [← List.take_append_drop e.line (Text.lines source'.toList), hsource', htake]
    exact Assembler.addLines_append_of_error hfail _

/-- Where the first pass is through, so it is with every start of the source. -/
theorem isUndefined_of_addLines {source : String} {a : Assembler}
    (h : Assembler.addLines {} 1 (Text.lines source.toList) = .ok a) (i : Nat) {e : Error}
    (he : assemble (firstLines i source) = .error e) : e.IsUndefined := by
  by_contra hdefined
  have hfail := addLines_eq_error_iff.mpr ⟨he, hdefined⟩
  rw [← List.take_append_drop i (Text.lines source.toList)] at h
  obtain ⟨c, hc⟩ := Assembler.exists_addLines_of_append h
  rw [lines_firstLines, hc] at hfail
  cases hfail

/-- The error of a line is that of the shortest start of the source that is rejected for another
reason than an undefined label, and of all sources with this start. A label is reported to be
undefined only if no line is rejected; it is the first one that is referred to and not defined. -/
theorem assemble_first_error {source : String} {e : Error} (h : assemble source = .error e) :
    (¬e.IsUndefined ∧
      IsLeast {i | ∃ e', assemble (firstLines i source) = .error e' ∧ ¬e'.IsUndefined} e.line ∧
      ∀ source', (Text.lines source'.toList).take e.line = (Text.lines source.toList).take e.line →
        assemble source' = .error e) ∨
    (e.IsUndefined ∧
      (∀ i e', assemble (firstLines i source) = .error e' → e'.IsUndefined) ∧
      ∃ ls, Reads source ls ∧ WellPlaced ls ∧ (labels ls).Nodup ∧
        ∃ front key back, numberedReferences 1 ls = front ++ (e.line, key) :: back ∧
          e.cause = .undefinedLabel key ∧ key ∉ labels ls ∧ ∀ r ∈ front, r.2 ∈ labels ls) := by
  rcases bind_eq_error_iff.mp h with hfirst | ⟨a, ha, hsecond⟩
  · exact .inl ⟨(addLines_eq_error_iff.mp hfirst).2, isLeast_of_addLines_eq_error hfirst⟩
  · obtain ⟨ls, hls, hemitted⟩ := Assembler.addLines_eq_ok Assembler.emitted_nil ha
    have hnoted := (Assembler.noted_addLines hls ha).trans (List.append_nil _)
    have hfound := hemitted.resolve_eq_error hnoted hsecond
    have hundefined : e.IsUndefined := by
      obtain ⟨-, key, -, -, hcause, -⟩ := hfound
      exact ⟨key, hcause⟩
    exact .inr ⟨hundefined, fun i e' he' => isUndefined_of_addLines ha i he', ls, hls,
      hemitted.placed, hemitted.unique, hfound⟩

/-- The second line defines a label again; the undefined label of the first line and the origin of
the third do not matter. -/
theorem assemble_first_error_second_line :
    assemble "a: DAT b\nA: HLT\nORG 0" = .error ⟨2, .duplicateLabel "A"⟩ ∧
      IsLeast {i | ∃ e', assemble (firstLines i "a: DAT b\nA: HLT\nORG 0") = .error e' ∧
        ¬e'.IsUndefined} 2 := by
  have herror : assemble "a: DAT b\nA: HLT\nORG 0" = .error ⟨2, .duplicateLabel "A"⟩ := by decide
  refine ⟨herror, ?_⟩
  rcases assemble_first_error herror with ⟨-, hleast, -⟩ | ⟨⟨label, ⟨⟩⟩, -⟩
  exact hleast

end CellMachine.Assembly
