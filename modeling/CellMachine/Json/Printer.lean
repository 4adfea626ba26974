import CellMachine.Json.Basic

/-!
# CellMachine.Json.Printer

JSON texts of values, in two layouts: without any blank, and with every item on a line of its own.
-/

namespace CellMachine.Json

/-- The blanks around the items of a value. -/
structure Layout where
  /-- What stands before an item, or before a closing bracket, at this depth. -/
  line : Nat → String
  /-- What stands between the name and the value of a member. -/
  colon : String

def Layout.compact : Layout := ⟨fun _ => "", ":"⟩

def Layout.pretty : Layout :=
  ⟨fun depth => "\n" ++ String.ofList (List.replicate (2 * depth) ' '), ": "⟩

/-- A character of a string. Quotes, backslashes and control characters are escaped. -/
def quoteChar (c : Char) : List Char :=
  match c with
  | '"' => ['\\', '"']
  | '\\' => ['\\', '\\']
  | '\x08' => ['\\', 'b']
  | '\x0c' => ['\\', 'f']
  | '\n' => ['\\', 'n']
  | '\r' => ['\\', 'r']
  | '\t' => ['\\', 't']
  | c =>
    if c.toNat < 0x20 then
      ['\\', 'u', '0', '0', Nat.digitChar (c.toNat / 16), Nat.digitChar (c.toNat % 16)]
    else [c]

def quote (s : String) : String := "\"" ++ String.ofList (s.toList.flatMap quoteChar) ++ "\""

/-- Items between brackets; the brackets of no items stand together. -/
def Layout.enclose (l : Layout) (depth : Nat) (opening closing : String) (items : List String) :
    String :=
  if items.isEmpty then opening ++ closing
  else
    opening ++ l.line (depth + 1) ++ ("," ++ l.line (depth + 1)).intercalate items ++
      l.line depth ++ closing

mutual

/-- The text of a value at this depth. A string without text is written as `null`. -/
def write (l : Layout) (depth : Nat) : Json → String
  | .null => "null"
  | .bool b => toString b
  | .int z => toString z
  | .real lexeme => String.ofList lexeme
  | .str text => text.elim "null" quote
  | .arr items => l.enclose depth "[" "]" (writeItems l (depth + 1) items)
  | .obj members => l.enclose depth "\x7b" "\x7d" (writeMembers l (depth + 1) members)

def writeItems (l : Layout) (depth : Nat) : List Json → List String
  | [] => []
  | v :: rest => write l depth v :: writeItems l depth rest

def writeMembers (l : Layout) (depth : Nat) : List (Option String × Json) → List String
  | [] => []
  | (name, v) :: rest =>
    (name.elim "null" quote ++ l.colon ++ write l depth v) :: writeMembers l depth rest

end

def compact (v : Json) : String := write .compact 0 v

def pretty (v : Json) : String := write .pretty 0 v

end CellMachine.Json
