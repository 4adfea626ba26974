/-!
# CellMachine.Json.Basic

JSON values as they stand in a text: numbers keep the difference between integers and others, and
objects keep the order and the repetition of their members.
-/

namespace CellMachine

inductive Json where
  | null
  | bool (b : Bool)
  /-- A number written as an integer; `-0` is none. -/
  | int (z : Int)
  /-- Any other number, as it is written. -/
  | real (lexeme : List Char)
  /-- A string, or `none` if its escapes spell no text. -/
  | str (text : Option String)
  | arr (items : List Json)
  | obj (members : List (Option String × Json))

namespace Json

def text (s : String) : Json := .str (some s)

def list {α : Type} (f : α → Json) (xs : List α) : Json := .arr (xs.map f)

def record (members : List (String × Json)) : Json :=
  .obj (members.map fun (name, value) => (some name, value))

def nat (n : Nat) : Json := .int n

/-- A value that may be missing, with `null` for a missing one. -/
def option {α : Type} (f : α → Json) (x : Option α) : Json := x.elim .null f

end Json

end CellMachine
