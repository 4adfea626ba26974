import CellMachine.Json.Parser
import CellMachine.Proofs.Json.Token

/-!
# CellMachine.Proofs.Json.RoundTrip

A value is read back from its text, in either layout.

* `Json.Plain`      — the values whose texts say all about them.
* `Row`             — the states of the reader between two brackets.
* `State.run_write` — the text of a value, wherever a value may come.
* `parse?_write`    — the text of a value, as a whole.
-/

namespace CellMachine.Json

/-- No number is other than an integer, and no string or name is without a text. -/
inductive Plain : Json → Prop
  | null : Plain .null
  | bool (b : Bool) : Plain (.bool b)
  | int (z : Int) : Plain (.int z)
  | text (s : String) : Plain (.text s)
  | arr {items : List Json} (h : ∀ v ∈ items, Plain v) : Plain (.arr items)
  | obj {members : List (Option String × Json)} (hname : ∀ p ∈ members, p.1.isSome = true)
      (h : ∀ p ∈ members, Plain p.2) : Plain (.obj members)

theorem Plain.list {α : Type} {f : α → Json} {xs : List α} (h : ∀ x, Plain (f x)) :
    Plain (.list f xs) :=
  .arr (List.forall_mem_map.mpr fun x _ => h x)

theorem Plain.record {members : List (String × Json)} (h : ∀ p ∈ members, Plain p.2) :
    Plain (.record members) :=
  .obj (List.forall_mem_map.mpr fun _ _ => rfl) (List.forall_mem_map.mpr h)

/-! ## Layouts -/

theorem writeItems_eq_map (l : Layout) (depth : Nat) (items : List Json) :
    writeItems l depth items = items.map (write l depth) := by
  induction items with
  | nil => rfl
  | cons v items ih => rw [writeItems, ih, List.map_cons]

/-- A member of an object: its name, the colon and its value. -/
def writeMember (l : Layout) (depth : Nat) (member : Option String × Json) : String :=
  member.1.elim "null" quote ++ l.colon ++ write l depth member.2

theorem writeMembers_eq_map (l : Layout) (depth : Nat) (members : List (Option String × Json)) :
    writeMembers l depth members = members.map (writeMember l depth) := by
  induction members with
  | nil => rfl
  | cons p members ih => rw [writeMembers, ih, List.map_cons, writeMember]

/-- Lines are blank, and there is nothing but blanks around the colon. -/
structure Layout.Blank (l : Layout) : Prop where
  line : ∀ depth, ∀ c ∈ (l.line depth).toList, Token.isSpace c = true
  colon : ∃ blanks, l.colon.toList = ':' :: blanks ∧ ∀ c ∈ blanks, Token.isSpace c = true

theorem Layout.blank_compact : Layout.compact.Blank where
  line _ := by
    simp only [compact]
    nofun
  colon := ⟨[], rfl, nofun⟩

theorem Layout.blank_pretty : Layout.pretty.Blank where
  line depth c hc := by
    simp only [pretty, String.toList_append, String.toList_ofList, List.mem_append,
      List.mem_replicate] at hc
    rcases hc with hc | ⟨-, rfl⟩
    · have hfeed : c = '\n' := List.mem_singleton.mp hc
      rw [hfeed]
      rfl
    · rfl
  colon := ⟨[' '], rfl, List.forall_mem_singleton.mpr rfl⟩

/-! ## One token at a time -/

namespace Token

theorem Ends.nil : Ends [] := nofun

theorem Ends.append {blanks rest : List Char} (h : ∀ c ∈ blanks, isSpace c = true)
    (hrest : Ends rest) : Ends (blanks ++ rest) := by
  cases blanks with
  | nil => exact hrest
  | cons b blanks =>
    intro c hc
    have hb : b = c := Option.some.inj hc
    have hspace := h c (hb ▸ List.mem_cons_self)
    simp only [isSpace, Bool.or_eq_true, beq_iff_eq] at hspace
    rcases hspace with ((rfl | rfl) | rfl) | rfl <;> rfl

/-- A sign that is read as one token, and ends a number in front of it. -/
structure Mark (t : Token) (sign : String) : Prop where
  read : ∀ rest, read? (sign.toList ++ rest) = some (t, rest)
  ends : ∀ rest, Ends (sign.toList ++ rest)

theorem mark_openArray : openArray.Mark "[" := ⟨fun _ => rfl, fun _ _ h => by cases h; rfl⟩

theorem mark_closeArray : closeArray.Mark "]" := ⟨fun _ => rfl, fun _ _ h => by cases h; rfl⟩

theorem mark_openObject : openObject.Mark "\x7b" := ⟨fun _ => rfl, fun _ _ h => by cases h; rfl⟩

theorem mark_closeObject : closeObject.Mark "\x7d" := ⟨fun _ => rfl, fun _ _ h => by cases h; rfl⟩

theorem mark_comma : comma.Mark "," := ⟨fun _ => rfl, fun _ _ h => by cases h; rfl⟩

end Token

namespace State

open Token (Ends Mark)

/-- The state after all tokens of a text. -/
def run (s : State) (cs : List Char) : Option State :=
  (Token.tokens? cs).bind fun ts => ts.foldlM step? s

variable {s s' : State} {t : Token} {cs rest : List Char}

@[simp] theorem run_nil (s : State) : s.run [] = some s := by
  rw [run, Token.tokens?]
  rfl

theorem run_of_read? (h : Token.read? cs = some (t, rest)) (hs : s.step? t = some s') :
    s.run cs = s'.run rest := by
  rw [run, Token.tokens?_of_read? h, Option.bind_map, run]
  congr 1
  funext ts
  rw [Function.comp, List.foldlM_cons, hs]
  rfl

theorem run_mark {sign : String} (h : t.Mark sign) (hs : s.step? t = some s') :
    s.run (sign.toList ++ rest) = s'.run rest :=
  run_of_read? (h.read rest) hs

theorem run_blanks (s : State) {blanks : List Char} (h : ∀ c ∈ blanks, Token.isSpace c = true) :
    s.run (blanks ++ rest) = s.run rest := by
  rw [run, Token.tokens?_append_left h, run]

/-! ## Rows of items -/

/-- The states while a row of items is read: in front of the first item, in front of a further one
and behind one, with the items so far last first, and behind the closing bracket. -/
structure Row (α : Type) where
  opened : State
  next : List α → State
  ended : α → List α → State
  final : List α → State

/-- A comma leads on, and the token `close` ends the row. -/
structure Row.Closes {α : Type} (r : Row α) (close : Token) : Prop where
  empty : r.opened.step? close = some (r.final [])
  comma : ∀ a done, (r.ended a done).step? .comma = some (r.next (a :: done))
  close : ∀ a done, (r.ended a done).step? close = some (r.final (a :: done).reverse)

def Row.array (outer : List Frame) : Row Json where
  opened := .firstItem outer
  next done := .value (.array done :: outer)
  ended v done := .after v (.array done :: outer)
  final items := .after (.arr items) outer

def Row.object (outer : List Frame) : Row (Option String × Json) where
  opened := .firstName outer
  next done := .name done outer
  ended member done := .after member.2 (.object done member.1 :: outer)
  final members := .after (.obj members) outer

theorem Row.closes_array (outer : List Frame) : (Row.array outer).Closes .closeArray where
  empty := rfl
  comma _ _ := rfl
  close _ _ := rfl

theorem Row.closes_object (outer : List Frame) : (Row.object outer).Closes .closeObject where
  empty := rfl
  comma _ _ := rfl
  close _ _ := rfl

section Row

variable {α : Type} {r : Row α} {close : Token} {closing : String} {text : α → String}
  {blanks blanks' : List Char}

/-- A state from which the text of `a` is read, as one more item. -/
def Row.Takes (r : Row α) (text : α → String) (s : State) (a : α) (done : List α) : Prop :=
  ∀ rest, Ends rest → s.run ((text a).toList ++ rest) = (r.ended a done).run rest

/-- The items of a row, from the first of them to the closing bracket. -/
theorem Row.run_items (hr : r.Closes close) (hclose : close.Mark closing)
    (hb : ∀ c ∈ blanks, Token.isSpace c = true) (hb' : ∀ c ∈ blanks', Token.isSpace c = true)
    {a : α} {items done : List α} (ha : r.Takes text s a done)
    (hitems : ∀ b ∈ items, ∀ done, r.Takes text (r.next done) b done) (rest : List Char) :
    s.run ((",".toList ++ blanks).intercalate ((a :: items).map fun a => (text a).toList) ++
        (blanks' ++ (closing.toList ++ rest))) =
      (r.final (done.reverse ++ a :: items)).run rest := by
  -- On the items behind the first; `done` takes what has been read.
  induction items generalizing s a done with
  | nil =>
    rw [List.map_singleton, List.intercalate_singleton, ha _ (.append hb' (hclose.ends rest)),
      run_blanks _ hb', run_mark hclose (hr.close a done), List.reverse_cons]
  | cons b items ih =>
    have hb₁ := hitems b List.mem_cons_self (a :: done)
    have hrow := ih hb₁ fun c hc => hitems c (List.mem_cons_of_mem b hc)
    rw [List.reverse_cons, List.append_assoc] at hrow
    rw [List.map_cons, List.map_cons, List.intercalate_cons_cons, List.append_assoc,
      List.append_assoc, List.append_assoc, ha _ (Token.mark_comma.ends _),
      run_mark Token.mark_comma (hr.comma a done), run_blanks _ hb]
    exact hrow

/-- A row between brackets, from behind the opening one. -/
theorem Row.run_enclose {l : Layout} (hl : l.Blank) (hr : r.Closes close)
    (hclose : close.Mark closing) {opening : String} {openToken : Token}
    (hopen : openToken.Mark opening) (hs : s.step? openToken = some r.opened) {items : List α}
    (hfirst : ∀ a ∈ items, r.Takes text r.opened a [])
    (hitems : ∀ a ∈ items, ∀ done, r.Takes text (r.next done) a done) (depth : Nat) :
    s.run ((l.enclose depth opening closing (items.map text)).toList ++ rest) =
      (r.final items).run rest := by
  cases items with
  | nil =>
    rw [Layout.enclose, List.map_nil, List.isEmpty_nil, if_pos rfl, String.toList_append,
      List.append_assoc, run_mark hopen hs, run_mark hclose hr.empty]
  | cons a items =>
    have hrow := run_items hr hclose (hl.line (depth + 1)) (hl.line depth)
      (hfirst a List.mem_cons_self) (fun b hb => hitems b (List.mem_cons_of_mem a hb)) rest
    rw [Layout.enclose, List.map_cons, List.isEmpty_cons, if_neg Bool.false_ne_true]
    simp only [String.toList_append, String.toList_intercalate, List.append_assoc,
      List.map_cons, List.map_map]
    rw [run_mark hopen hs, run_blanks _ (hl.line _)]
    exact hrow

end Row

/-! ## Values -/

/-- A value may come, inside `outer`. -/
def Awaits (s : State) (outer : List Frame) : Prop :=
  ∀ t s', startValue? outer t = some s' → s.step? t = some s'

theorem awaits_value (outer : List Frame) : (State.value outer).Awaits outer := fun _ _ h => h

/-- In an array that was just opened a value may come, or the array ends. -/
theorem awaits_firstItem (outer : List Frame) :
    (State.firstItem outer).Awaits (.array [] :: outer) := by
  intro t s' h
  cases t with
  | closeArray => cases h
  | _ => exact h

/-- A member is read if its value is: the name and the colon lead to the state in front of it. -/
theorem takes_member {l : Layout} (hl : l.Blank) {p : Option String × Json}
    {done : List (Option String × Json)} {outer : List Frame} {depth : Nat}
    (hname : p.1.isSome = true) (hs : ∀ key, s.step? (.str key) = some (.colon done key outer))
    (hv : ∀ rest, Ends rest →
      (State.value (.object done p.1 :: outer)).run ((write l depth p.2).toList ++ rest) =
        (State.after p.2 (.object done p.1 :: outer)).run rest) :
    (Row.object outer).Takes (writeMember l depth) s p done := by
  obtain ⟨blanks, hcolon, hblanks⟩ := hl.colon
  obtain ⟨_ | name, v⟩ := p
  · cases hname
  intro rest hrest
  simp only [writeMember, Option.elim_some, String.toList_append, List.append_assoc, hcolon,
    List.cons_append]
  rw [run_of_read? (Token.read?_quote name _) (hs _), run_of_read? rfl rfl, run_blanks _ hblanks]
  exact hv rest hrest

/-- The text of a value is read wherever a value may come. -/
theorem run_write {l : Layout} (hl : l.Blank) {v : Json} (h : Plain v) {depth : Nat}
    {outer : List Frame} (hs : s.Awaits outer) (hrest : Ends rest) :
    s.run ((write l depth v).toList ++ rest) = (State.after v outer).run rest := by
  -- The state is general: the first item of an array is read where the array may still end.
  induction h generalizing depth outer s rest with
  | null =>
    rw [write]
    exact run_of_read? rfl (hs .null _ rfl)
  | bool b =>
    rw [write]
    cases b with
    | false => exact run_of_read? rfl (hs (.bool false) _ rfl)
    | true => exact run_of_read? rfl (hs (.bool true) _ rfl)
  | int z =>
    rw [write]
    exact run_of_read? (Token.read?_toString z hrest) (hs (.int z) _ rfl)
  | text str =>
    rw [Json.text, write]
    exact run_of_read? (Token.read?_quote str rest) (hs (.str (some str)) _ rfl)
  | arr _ ih =>
    rw [write, writeItems_eq_map]
    exact Row.run_enclose hl (Row.closes_array outer) Token.mark_closeArray Token.mark_openArray
      (hs _ _ rfl) (fun v hv _ => ih v hv (awaits_firstItem outer))
      (fun v hv _ _ => ih v hv (awaits_value _)) depth
  | obj hname _ ih =>
    rw [write, writeMembers_eq_map]
    exact Row.run_enclose hl (Row.closes_object outer) Token.mark_closeObject Token.mark_openObject
      (hs _ _ rfl)
      (fun p hp => takes_member hl (hname p hp) (fun _ => rfl) fun _ => ih p hp (awaits_value _))
      (fun p hp _ => takes_member hl (hname p hp) (fun _ => rfl) fun _ => ih p hp (awaits_value _))
      depth

end State

theorem parse?_write {l : Layout} (hl : l.Blank) {v : Json} (h : Plain v) (depth : Nat) :
    parse? (write l depth v) = some v := by
  have hrun : (State.value []).run (write l depth v).toList = some (.after v []) := by
    rw [← List.append_nil (write l depth v).toList,
      State.run_write hl h (State.awaits_value []) Token.Ends.nil, State.run_nil]
  show ((Token.tokens? _).bind fun ts => (ts.foldlM State.step? (.value [])).bind State.result?) = _
  rw [← Option.bind_assoc]
  show ((State.value []).run _).bind State.result? = _
  rw [hrun]
  rfl

end CellMachine.Json
