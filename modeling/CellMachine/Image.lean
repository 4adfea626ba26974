import CellMachine.FileName
import CellMachine.Files
import CellMachine.Json.Parser
import CellMachine.Json.Printer
import CellMachine.Json.Record
import CellMachine.Text.Blank
import CellMachine.Text.Lines
import CellMachine.Text.Numeral
import CellMachine.Text.Pad

/-!
# CellMachine.Image

Files that hold the cells of an image.

* `Image.parseText`, `Image.toText` — numbers between blanks, with comments after `;`.
* `Image.parseJson`, `Image.toJson` — an object with the list `cells`.
* `Image.load`, `Image.save`        — by name; names that end in `.json` hold the second form.
-/

namespace CellMachine

/-- The cells to place at address 0. -/
abbrev Image := Array Word

inductive ImageError where
  | io (name : String) (error : FileError)
  | word (line : Nat) (text : String) (error : Text.NumeralError)
  | json
  deriving DecidableEq, Repr

def ImageError.message : ImageError → String
  | .io name error => s!"I/O error: {name}: {error.message}"
  | .word line text error => s!"parse error on line {line}: '{text}': {error.message}"
  | .json => "JSON error: not an object with a list of cells"

namespace Image

def parseLine (number : Nat) (line : List Char) : Except ImageError (List Word) :=
  (Text.words Text.isBlank (Text.uncomment line)).mapM fun text =>
    (Text.readWord text).mapError (.word number (String.ofList text))

def parseLines (number : Nat) : List (List Char) → Except ImageError (List Word)
  | [] => .ok []
  | line :: rest => do
    let words ← parseLine number line
    return words ++ (← parseLines (number + 1) rest)

def parseText (text : String) : Except ImageError Image :=
  (parseLines 1 (Text.lines text.toList)).map List.toArray

/-- A cell on a line of its own, with its address as a comment. -/
def cellLine (addr : Nat) (w : Word) : String := s!"{w} ; {Text.zeroPad 4 addr}\n"

def toText (image : Image) : String :=
  s!"; register VM image\n; {image.size} cells\n\n" ++
    String.join (image.toList.mapIdx cellLine)

def parseJson (text : String) : Except ImageError Image :=
  let cells? := do
    let fields ← (← Json.parse? text).record? ["cells"]
    Json.required fields "cells" (Json.listOf? Json.word?)
  match cells? with
  | some cells => .ok cells.toArray
  | none => .error .json

def toJson (image : Image) : String :=
  (Json.record [("cells", .list (fun w => .int w.toInt) image.toList)]).compact

def decode (name text : String) : Except ImageError Image :=
  if FileName.isJson name then parseJson text else parseText text

def encode (name : String) (image : Image) : String :=
  if FileName.isJson name then image.toJson else image.toText

def load (files : Files) (name : String) : Except ImageError Image :=
  match files.read name with
  | .ok text => decode name text
  | .error e => .error (.io name e)

def save (files : Files) (name : String) (image : Image) : Except ImageError Files :=
  (files.write name (encode name image)).mapError (.io name)

end Image

end CellMachine
