import CellMachine.Json.Basic
import CellMachine.Word

/-!
# CellMachine.Json.Record

Reading typed data from JSON values.

* `record?`  — the fields of a record, from an object or from a list in field order.
* `variant?` — the name of an alternative and what it carries.
* `word?`, `uint64?`, `bool?`, `listOf?` — single values.
-/

namespace CellMachine.Json

def word? : Json → Option Word
  | .int z => Word.ofInt? z
  | _ => none

def uint64? : Json → Option UInt64
  | .int z => if 0 ≤ z ∧ z < UInt64.size then some (UInt64.ofNat z.toNat) else none
  | _ => none

def bool? : Json → Option Bool
  | .bool b => some b
  | _ => none

def isNull : Json → Bool
  | .null => true
  | _ => false

/-- A value that `null` stands in for. -/
def option? {α : Type} (f : Json → Option α) (v : Json) : Option (Option α) :=
  if v.isNull then some none else (f v).map some

def listOf? {α : Type} (f : Json → Option α) : Json → Option (List α)
  | .arr items => items.mapM f
  | _ => none

/-- The fields that are given for a record with these names. In an object other members are passed
over and no field may come twice; a list gives the fields in order and may end early. -/
def record? (names : List String) : Json → Option (List (String × Json))
  | .obj members => do
    let named ← members.mapM fun (name, v) => name.map (·, v)
    let fields := named.filter fun (name, _) => names.contains name
    if (fields.map (·.1)).Nodup then some fields else none
  | .arr items => if items.length ≤ names.length then some (names.zip items) else none
  | _ => none

/-- The field `name`, which must be given. -/
def required {α : Type} (fields : List (String × Json)) (name : String) (f : Json → Option α) :
    Option α :=
  (fields.lookup name).bind f

/-- The field `name`, or `default` where it is not given. -/
def optional {α : Type} (fields : List (String × Json)) (name : String) (default : α)
    (f : Json → Option α) : Option α :=
  (fields.lookup name).elim (some default) f

/-- One of several alternatives: its name alone, or an object that gives its content. -/
def variant? : Json → Option (String × Option Json)
  | .str (some name) => some (name, none)
  | .obj [(some name, v)] => some (name, some v)
  | _ => none

/-- An alternative without content, given by its name. -/
def oneOf? {α : Type} (all : List α) (name : α → String) (v : Json) : Option α := do
  let (given, content) ← v.variant?
  if content.all isNull then all.find? (name · == given) else none

end CellMachine.Json
