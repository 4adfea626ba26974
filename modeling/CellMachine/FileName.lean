/-!
# CellMachine.FileName

What the name of a file says about what is in it.

* `FileName.extension?` — what follows the last dot of a name.
* `FileName.isJson`, `FileName.isSource` — the two kinds of names that matter.
-/

namespace CellMachine.FileName

def base (name : List Char) : List Char := (name.reverse.takeWhile (· ≠ '/')).reverse

/-- What follows the last dot; a dot at the start of a name counts only if another one follows. -/
def extension? (name : String) : Option (List Char) :=
  let reversed := (base name.toList).reverse
  match reversed.dropWhile (· ≠ '.') with
  | _ :: _ :: _ => some (reversed.takeWhile (· ≠ '.')).reverse
  | _ => none

/-- Names that end in `.json`, in letters of either case. -/
def isJson (name : String) : Bool :=
  (extension? name).any fun e => e.map Char.toLower == "json".toList

def isSource (name : String) : Bool := ".asm".toList.isSuffixOf name.toList

end CellMachine.FileName
