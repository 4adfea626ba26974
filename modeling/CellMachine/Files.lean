/-!
# CellMachine.Files

Text files, the directories that they are in, and the paths that lead to them.

* `Files.isDirectory`         — the directories that exist.
* `Files.walk`                — the place that the steps of a path lead to.
* `Files.place`               — the place of a whole path, or why there is none.
* `Files.read`, `Files.write` — the text of a file by its path.

A path starts at the working directory, or at the root if its first character is a slash. There are
no links, so a step upwards leaves out the last name of a place.
-/

namespace CellMachine

inductive FileError where
  /-- The file, or the directory that should hold it, does not exist. -/
  | notFound
  /-- A file stands where a path asks for a directory. -/
  | notDirectory
  | isDirectory
  | nameTooLong
  | zeroCharacter
  | other (reason : String)
  deriving DecidableEq, Repr

def FileError.message : FileError → String
  | .notFound => "No such file or directory (os error 2)"
  | .notDirectory => "Not a directory (os error 20)"
  | .isDirectory => "Is a directory (os error 21)"
  | .nameTooLong => "File name too long (os error 36)"
  | .zeroCharacter => "file name contained an unexpected NUL byte"
  | .other reason => reason

/-- Where a file or a directory is: the names on the way to it from the root. -/
abbrev Place := List String

/-- Texts by the places of their files. The directories that exist are the working directory, those
listed, and all above them. -/
structure Files where
  entries : List (Place × String) := []
  directories : List Place := []
  working : Place := []
  deriving DecidableEq, Repr

namespace Files

def maxNameBytes : Nat := 255

def maxPathBytes : Nat := 4095

def text? (files : Files) (place : Place) : Option String := files.entries.lookup place

def isDirectory (files : Files) (place : Place) : Bool :=
  (files.working :: files.directories).any place.isPrefixOf

/-- What stands before, between and behind the slashes of a path. -/
def steps (path : String) : List String := (path.toList.splitOn '/').map String.ofList

/-- The directory at which a path starts. -/
def start (files : Files) (path : String) : Place :=
  if path.toList.head? = some '/' then [] else files.working

/-- The place that the steps of a path lead to from `dir`, or `none` for a directory. The root is
above itself. Where something is to be made, slashes after its name ask for a directory. -/
def walk (files : Files) (making : Bool) (dir : Place) :
    List String → Except FileError (Option Place)
  | [] => .ok none
  | step :: rest =>
    if step = "" ∨ step = "." then walk files making dir rest
    else if step = ".." then walk files making dir.dropLast rest
    else if making ∧ rest ≠ [] ∧ rest.all String.isEmpty then .error .isDirectory
    else if maxNameBytes < step.utf8ByteSize then .error .nameTooLong
    else if files.isDirectory (dir ++ [step]) then walk files making (dir ++ [step]) rest
    else if rest = [] then .ok (some (dir ++ [step]))
    else if (files.text? (dir ++ [step])).isSome then .error .notDirectory
    else .error .notFound

/-- The place of the file that a path leads to. -/
def place (files : Files) (making : Bool) (path : String) : Except FileError Place :=
  if path.toList.contains '\x00' then .error .zeroCharacter
  else if path.isEmpty then .error .notFound
  else if maxPathBytes < path.utf8ByteSize then .error .nameTooLong
  else
    match files.walk making (files.start path) (steps path) with
    | .ok (some place) => .ok place
    | .ok none => .error .isDirectory
    | .error e => .error e

def read (files : Files) (path : String) : Except FileError String :=
  match files.place false path with
  | .ok place => (files.text? place).elim (.error .notFound) .ok
  | .error e => .error e

def put (files : Files) (place : Place) (text : String) : Files :=
  { files with entries := (place, text) :: files.entries.filter fun (other, _) => other != place }

def write (files : Files) (path text : String) : Except FileError Files :=
  (files.place true path).map (files.put · text)

end Files

end CellMachine
