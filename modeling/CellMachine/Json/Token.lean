import CellMachine.Text.Numeral

/-!
# CellMachine.Json.Token

The tokens of a JSON text.

* `Token.read?`    — the first token of a text and what follows it.
* `Token.tokens?`  — all tokens; blanks between them are skipped.
-/

namespace CellMachine.Json

inductive Token where
  | openArray | closeArray
  | openObject | closeObject
  | colon | comma
  | null
  | bool (b : Bool)
  | int (z : Int)
  | real (lexeme : List Char)
  | str (text : Option String)
  deriving DecidableEq, Repr

namespace Token

def isSpace (c : Char) : Bool := c == ' ' || c == '\n' || c == '\t' || c == '\r'

/-! ## Strings -/

/-- One element of a string body: a character, or a 16-bit code from an escape. -/
inductive Piece where
  | char (c : Char)
  | code (n : Nat)
  deriving DecidableEq, Repr

/-- The character that a one-letter escape stands for. -/
def escape? : Char → Option Char
  | '"' => some '"'
  | '\\' => some '\\'
  | '/' => some '/'
  | 'b' => some '\x08'
  | 'f' => some '\x0c'
  | 'n' => some '\n'
  | 'r' => some '\r'
  | 't' => some '\t'
  | _ => none

/-- The elements of a string up to its closing quote, and what follows the quote. Control
characters must be escaped. -/
def body? : List Char → Option (List Piece × List Char)
  | [] => none
  | '"' :: rest => some ([], rest)
  | '\\' :: 'u' :: a :: b :: c :: d :: rest => do
    let n ← Text.hexDigits? [a, b, c, d]
    let (pieces, rest) ← body? rest
    return (.code n :: pieces, rest)
  | '\\' :: e :: rest => do
    let c ← escape? e
    let (pieces, rest) ← body? rest
    return (.char c :: pieces, rest)
  | c :: rest =>
    if c.toNat < 0x20 then none
    else do
      let (pieces, rest) ← body? rest
      return (.char c :: pieces, rest)

theorem length_lt_of_body? {cs rest : List Char} {pieces : List Piece}
    (h : body? cs = some (pieces, rest)) : rest.length < cs.length := by
  fun_induction body? cs generalizing pieces rest with
  | case1 => cases h
  | case2 r =>
    cases h
    simp
  | case3 a b c d r ih =>
    simp only [Option.bind_eq_bind, Option.bind_eq_some_iff, Option.pure_def,
      Option.some.injEq, Prod.mk.injEq, Prod.exists] at h
    obtain ⟨n, -, p, r', hr, -, rfl⟩ := h
    have := ih hr
    simp only [List.length_cons]
    omega
  | case4 e r _ ih =>
    simp only [Option.bind_eq_bind, Option.bind_eq_some_iff, Option.pure_def,
      Option.some.injEq, Prod.mk.injEq, Prod.exists] at h
    obtain ⟨n, -, p, r', hr, -, rfl⟩ := h
    have := ih hr
    simp only [List.length_cons]
    omega
  | case5 => cases h
  | case6 c r _ _ _ _ ih =>
    simp only [Option.bind_eq_bind, Option.bind_eq_some_iff, Option.pure_def,
      Option.some.injEq, Prod.mk.injEq, Prod.exists] at h
    obtain ⟨p, r', hr, -, rfl⟩ := h
    have := ih hr
    simp only [List.length_cons]
    omega

/-- The text of a string body. Codes of surrogates come in pairs that spell one character. -/
def spell? : List Piece → Option (List Char)
  | [] => some []
  | .char c :: rest => (spell? rest).map (c :: ·)
  | .code n :: rest =>
    if 0xD800 ≤ n ∧ n < 0xDC00 then
      match rest with
      | .code m :: rest =>
        if 0xDC00 ≤ m ∧ m < 0xE000 then
          (spell? rest).map (Char.ofNat (0x10000 + (n - 0xD800) * 0x400 + (m - 0xDC00)) :: ·)
        else none
      | _ => none
    else if 0xDC00 ≤ n ∧ n < 0xE000 then none
    else (spell? rest).map (Char.ofNat n :: ·)

/-! ## Numbers -/

def isNumberChar (c : Char) : Bool :=
  c.isDigit || c == '-' || c == '+' || c == '.' || c == 'e' || c == 'E'

/-- One or more digits at the start of a text, and what follows them. -/
def digits? (cs : List Char) : Option (List Char × List Char) :=
  let ds := cs.takeWhile Char.isDigit
  if ds.isEmpty then none else some (ds, cs.dropWhile Char.isDigit)

/-- What follows the digits of an integer part, which has no zero in front of other digits. -/
def afterInteger? (cs : List Char) : Option (List Char) := do
  let (ds, rest) ← digits? cs
  if ds.head? = some '0' ∧ ds.length > 1 then none
  return rest

def afterFraction? : List Char → Option (List Char)
  | '.' :: cs => (digits? cs).map (·.2)
  | cs => some cs

def afterExponent? : List Char → Option (List Char)
  | 'e' :: cs | 'E' :: cs =>
    match cs with
    | '+' :: ds | '-' :: ds => (digits? ds).map (·.2)
    | ds => (digits? ds).map (·.2)
  | cs => some cs

/-- The token of a number. Minus zero is no integer. -/
def number? (lexeme : List Char) : Option Token := do
  let (negative, body) := match lexeme with
    | '-' :: body => (true, body)
    | body => (false, body)
  let rest ← afterInteger? body
  if rest.isEmpty then
    let n := Text.decimalValue body
    if negative then return if n = 0 then .real lexeme else .int (-n)
    return .int n
  let rest ← afterExponent? (← afterFraction? rest)
  if rest.isEmpty then return .real lexeme else none

/-! ## Texts -/

/-- The first token of a text that starts with one, and what follows it. -/
def read? : List Char → Option (Token × List Char)
  | '[' :: rest => some (.openArray, rest)
  | ']' :: rest => some (.closeArray, rest)
  | '{' :: rest => some (.openObject, rest)
  | '}' :: rest => some (.closeObject, rest)
  | ':' :: rest => some (.colon, rest)
  | ',' :: rest => some (.comma, rest)
  | '"' :: rest => (body? rest).map fun (pieces, rest) =>
    (.str ((spell? pieces).map String.ofList), rest)
  | 'n' :: 'u' :: 'l' :: 'l' :: rest => some (.null, rest)
  | 't' :: 'r' :: 'u' :: 'e' :: rest => some (.bool true, rest)
  | 'f' :: 'a' :: 'l' :: 's' :: 'e' :: rest => some (.bool false, rest)
  | [] => none
  | c :: rest =>
    if isNumberChar c then
      (number? (c :: rest.takeWhile isNumberChar)).map (·, rest.dropWhile isNumberChar)
    else none

theorem length_lt_of_read? {cs rest : List Char} {t : Token} (h : read? cs = some (t, rest)) :
    rest.length < cs.length := by
  unfold read? at h
  split at h
  case h_7 r =>
    simp only [Option.map_eq_some_iff, Prod.mk.injEq, Prod.exists] at h
    obtain ⟨p, r', hr, -, rfl⟩ := h
    have := length_lt_of_body? hr
    simp only [List.length_cons]
    omega
  case h_11 => cases h
  case h_12 c r _ _ _ _ _ _ _ _ _ _ =>
    split at h
    · simp only [Option.map_eq_some_iff, Prod.mk.injEq] at h
      obtain ⟨_, -, -, rfl⟩ := h
      have := (List.dropWhile_sublist isNumberChar (l := r)).length_le
      simp only [List.length_cons]
      omega
    · cases h
  all_goals
    simp only [Option.some.injEq, Prod.mk.injEq] at h
    obtain ⟨-, rfl⟩ := h
    simp only [List.length_cons]
    omega

def tokens? (cs : List Char) : Option (List Token) :=
  match cs with
  | [] => some []
  | c :: rest =>
    if isSpace c then tokens? rest
    else match _h : read? (c :: rest) with
      | none => none
      | some (t, rest) => (tokens? rest).map (t :: ·)
termination_by cs.length
decreasing_by
  · simp
  · exact length_lt_of_read? ‹_›

end Token

end CellMachine.Json
