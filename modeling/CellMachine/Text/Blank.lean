/-!
# CellMachine.Text.Blank

Blanks, and the shapes of text that they delimit.

* `isBlank` — the characters with the Unicode property White_Space.
* `trim`    — a text without the blanks at its two ends.
* `words`   — the maximal runs of characters that separate nothing.
* `uncomment` — a line up to its first `;`.
-/

namespace CellMachine.Text

/-- The first and last code point of each range of White_Space. -/
def blankRanges : List (Nat × Nat) :=
  [(0x09, 0x0D), (0x20, 0x20), (0x85, 0x85), (0xA0, 0xA0), (0x1680, 0x1680), (0x2000, 0x200A),
   (0x2028, 0x2029), (0x202F, 0x202F), (0x205F, 0x205F), (0x3000, 0x3000)]

def isBlank (c : Char) : Bool := blankRanges.any fun (lo, hi) => lo ≤ c.toNat && c.toNat ≤ hi

def trimEnd (cs : List Char) : List Char := (cs.reverse.dropWhile isBlank).reverse

/-- A text without the blanks at its two ends. -/
def trim (cs : List Char) : List Char := trimEnd (cs.dropWhile isBlank)

/-- The maximal runs of characters that are no separators, in order. -/
def words (isSeparator : Char → Bool) (cs : List Char) : List (List Char) :=
  (cs.splitOnP isSeparator).filter fun w => !w.isEmpty

/-- A comment runs from the first `;` to the end of the line. -/
def uncomment (cs : List Char) : List Char := cs.takeWhile (· ≠ ';')

end CellMachine.Text
