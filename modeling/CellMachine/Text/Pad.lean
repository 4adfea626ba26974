/-!
# CellMachine.Text.Pad

Fields of a least width. Widths count characters, and a text that is too long is kept whole.
-/

namespace CellMachine.Text

def padEnd (width : Nat) (s : String) : String :=
  s ++ String.ofList (List.replicate (width - s.length) ' ')

def padStart (width : Nat) (s : String) : String :=
  String.ofList (List.replicate (width - s.length) ' ') ++ s

/-- An integer filled up with zeros between its sign and its digits; the sign counts. -/
def zeroPad (width : Nat) (z : Int) : String :=
  let sign := if z < 0 then "-" else ""
  let digits := toString z.natAbs
  sign ++ String.ofList (List.replicate (width - (sign ++ digits).length) '0') ++ digits

end CellMachine.Text
