import CellMachine.Json.Basic
import CellMachine.Json.Token

/-!
# CellMachine.Json.Parser

JSON values from tokens, read one at a time.

* `State`       — what may come next, and the arrays and objects that are still open.
* `State.step?` — the state after one more token.
* `parse?`      — the value of a whole text.
-/

namespace CellMachine.Json

/-- An array or object that is still open around a value; items are kept last first. -/
inductive Frame where
  | array (items : List Json)
  | object (members : List (Option String × Json)) (name : Option String)

inductive State where
  | value (outer : List Frame)
  /-- An array has just been opened. -/
  | firstItem (outer : List Frame)
  /-- An object has just been opened. -/
  | firstName (outer : List Frame)
  /-- The name of a further member must come. -/
  | name (members : List (Option String × Json)) (outer : List Frame)
  | colon (members : List (Option String × Json)) (name : Option String) (outer : List Frame)
  | after (v : Json) (outer : List Frame)

namespace State

def startValue? (outer : List Frame) : Token → Option State
  | .null => some (.after .null outer)
  | .bool b => some (.after (.bool b) outer)
  | .int z => some (.after (.int z) outer)
  | .real lexeme => some (.after (.real lexeme) outer)
  | .str text => some (.after (.str text) outer)
  | .openArray => some (.firstItem outer)
  | .openObject => some (.firstName outer)
  | _ => none

def step? (s : State) (t : Token) : Option State :=
  match s, t with
  | .value outer, t => startValue? outer t
  | .firstItem outer, .closeArray => some (.after (.arr []) outer)
  | .firstItem outer, t => startValue? (.array [] :: outer) t
  | .firstName outer, .closeObject => some (.after (.obj []) outer)
  | .firstName outer, .str key => some (.colon [] key outer)
  | .name members outer, .str key => some (.colon members key outer)
  | .colon members key outer, .colon => some (.value (.object members key :: outer))
  | .after v (.array items :: outer), .comma => some (.value (.array (v :: items) :: outer))
  | .after v (.array items :: outer), .closeArray =>
    some (.after (.arr (v :: items).reverse) outer)
  | .after v (.object members key :: outer), .comma => some (.name ((key, v) :: members) outer)
  | .after v (.object members key :: outer), .closeObject =>
    some (.after (.obj ((key, v) :: members).reverse) outer)
  | _, _ => none

def result? : State → Option Json
  | .after v [] => some v
  | _ => none

end State

/-- The value that a text denotes; nothing but blanks may surround it. -/
def parse? (text : String) : Option Json := do
  let tokens ← Token.tokens? text.toList
  let final ← tokens.foldlM State.step? (.value [])
  final.result?

end CellMachine.Json
