/-!
# CellMachine.Text.Lines

The lines of a text. A line feed ends a line and takes one carriage return before it along; a last
line need not be ended, and nothing after the last line feed is no line.
-/

namespace CellMachine.Text

/-- A line without the carriage return at its end, if it has one. -/
def dropReturn (line : List Char) : List Char :=
  if line.getLast? = some '\r' then line.dropLast else line

/-- Lines from the pieces between line feeds: all but the last piece were ended by one. -/
def closeLines : List (List Char) → List (List Char)
  | [] => []
  | [open_] => if open_.isEmpty then [] else [open_]
  | line :: next :: rest => dropReturn line :: closeLines (next :: rest)

def lines (text : List Char) : List (List Char) := closeLines (text.splitOn '\n')

end CellMachine.Text
