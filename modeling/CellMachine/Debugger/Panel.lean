import CellMachine.Text.Blank

/-!
# CellMachine.Debugger.Panel

Boxes of styled text.

* `Glyph` — a character with a colour and a weight.
* `Panel` — a titled box with rows of text inside.
* `Panel.draw` — the glyphs of a box, row by row; text beyond its inner size is cut off.
-/

namespace CellMachine

inductive Colour where
  | default | yellow | red | cyan | green | magenta | white | darkGray
  deriving DecidableEq, Repr

structure Style where
  colour : Colour := .default
  bold : Bool := false
  deriving DecidableEq, Repr

structure Glyph where
  char : Char
  style : Style
  deriving DecidableEq, Repr

abbrev Row := List Glyph

namespace Row

def text (s : String) (style : Style := {}) : Row := s.toList.map (⟨·, style⟩)

/-- A row cut off or filled up to `width`. -/
def fit (width : Nat) (fill : Style) (row : Row) : Row :=
  row.take width ++ List.replicate (width - row.length) ⟨' ', fill⟩

end Row

/-- A row of a box, and the style of the blanks after it. -/
structure PanelRow where
  glyphs : Row
  fill : Style := {}
  deriving DecidableEq, Repr

structure Panel where
  title : String
  width : Nat
  height : Nat
  border : Style := {}
  /-- The style of what no row fills. -/
  fill : Style := {}
  rows : List PanelRow
  deriving DecidableEq, Repr

namespace Panel

/-- A line of border between two corners, with a text after the first one. -/
def edge (p : Panel) (left right : Char) (title : String) : Row :=
  let inner := (title.toList ++ List.replicate p.width '─').take (p.width - 2)
  (left :: inner ++ [right]).map (⟨·, p.border⟩)

def draw (p : Panel) : List Row :=
  let innerHeight := p.height - 2
  let shown := p.rows.take innerHeight
  let blank : PanelRow := ⟨[], p.fill⟩
  let rows := shown ++ List.replicate (innerHeight - shown.length) blank
  let side : Glyph := ⟨'│', p.border⟩
  let body := rows.map fun r => side :: r.glyphs.fit (p.width - 2) r.fill ++ [side]
  p.edge '┌' '┐' p.title :: body ++ [p.edge '└' '┘' ""]

end Panel

end CellMachine
