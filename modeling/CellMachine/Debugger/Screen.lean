import CellMachine.Debugger.Basic
import CellMachine.Debugger.Panel
import CellMachine.Text.Lines

/-!
# CellMachine.Debugger.Screen

The debugger on a terminal: listing, registers, output and status in the left column, memory and
help in the right one.
-/

namespace CellMachine.Debugger

def plain (colour : Colour) : Style := { colour }

def nextStyle : Style := { colour := .yellow, bold := true }

/-! ## Panels -/

def listingPanel (d : Debugger) (width height : Nat) : Panel :=
  let row (line : ViewLine) : PanelRow :=
    let breakpoint := d.breakpoints.contains (Int64.ofNat line.addr)
    let style :=
      if line.isNext then nextStyle else if breakpoint then plain .red else {}
    let text := (if breakpoint then "●" else " ") ++ (if line.isNext then " ▶ " else "   ") ++
      Text.zeroPad 4 line.addr ++ ": " ++ line.text
    ⟨Row.text text style, style⟩
  { title := " Disassembly ", width, height, border := plain .cyan,
    rows := (d.window (height - 2)).map row }

/-- A register with its value, and the meaning of the value if the register holds a type tag. -/
def registerRow (regs : Registers) (i : Fin 16) : Row :=
  let w := regs.word i
  let name := Registers.names.getD i ""
  let meaning := (TypeTag.ofWord? w).elim "?" TypeTag.name
  let tag := if i.val % 8 = 0 then s!" ({meaning})" else ""
  let style := plain (if w == 0 then .darkGray else .white)
  Row.text (name ++ ": " ++ Text.padStart 20 (toString w) ++ tag) style

/-- The value of the group that starts at register `i`, read as its tag says. -/
def groupValue (regs : Registers) (i : Fin 13) : String :=
  let triple := regs.triple i.succ
  let value := triple.ipart
  match TypeTag.ofWord? (regs.word (i.castLE (by decide))) with
  | some .bool => toString (value != 0)
  | some .int => toString value
  | some .float => triple.toBinary64.general Binary64.generalPrecision
  | some .string => s!"{value} digit(s) on stack"
  | none => "-"

def flagRow (name : Char) (set : Bool) : Row :=
  if set then Row.text (String.ofList [name, ' ']) { colour := .green, bold := true }
  else Row.text (String.ofList [name.toLower, ' ']) (plain .darkGray)

def registersPanel (d : Debugger) (width height : Nat) : Panel :=
  let m := d.machine
  let regs := m.regs
  let pair (i : Fin 8) : Row :=
    registerRow regs (i.castLE (by decide)) ++ Row.text "   " ++
      registerRow regs (i.natAdd 8)
  let groups := Row.text "A: " ++ Row.text (groupValue regs 0) (plain .cyan) ++
    Row.text "   B: " ++ Row.text (groupValue regs 8) (plain .cyan)
  let flags := Row.text "Flags: " ++ flagRow 'Z' regs.flags.zero ++ flagRow 'L' regs.flags.ltz ++
    flagRow 'G' regs.flags.gtz ++ Row.text "  PC: " ++ Row.text (toString m.pc) (plain .yellow) ++
    Row.text "  SP: " ++ Row.text (toString m.sp) (plain .magenta)
  let state := Row.text "Cycles: " ++ Row.text (toString m.cycles) (plain .cyan) ++
    Row.text "   State: " ++
    Row.text m.status.name (plain (if m.isRunning then .green else .red))
  let rows := (List.finRange 8).map pair ++ [groups, flags, state]
  { title := " Registers ", width, height, border := plain .green,
    rows := rows.map (⟨·, {}⟩) }

def outputPanel (d : Debugger) (width height : Nat) : Panel :=
  let lines := Text.lines d.machine.out.text.toList
  let last := lines.drop (lines.length - (height - 2))
  { title := " Output ", width, height,
    rows := last.map fun line => ⟨Row.text (String.ofList line), {}⟩ }

def statusPanel (d : Debugger) (width height : Nat) : Panel :=
  let style := plain .white
  { title := " Status ", width, height, border := style, fill := style,
    rows := [⟨Row.text d.notice.message style, style⟩] }

def memoryPanel (d : Debugger) (width height : Nat) : Panel :=
  let m := d.machine
  let row (addr : Nat) (w : Word) : PanelRow :=
    let isNext := (addr : Int) = d.next.toInt
    let marker := if isNext then "pc" else if (addr : Int) = m.sp.toInt then "sp" else "  "
    let style :=
      if isNext then nextStyle
      else if m.sp.toInt ≤ addr then plain .magenta
      else if w != 0 then plain .white
      else plain .darkGray
    ⟨Row.text (marker ++ " " ++ Text.zeroPad 4 addr ++ s!": {w}") style, style⟩
  { title := " Memory ", width, height, border := plain .magenta,
    rows := (m.mem.dump d.scroll (height - 2)).map fun (addr, w) => row addr w }

def helpPanel (width height : Nat) : Panel :=
  let style := plain .darkGray
  let rows := ["s: Step  r: Run  p: Pause  b: Breakpoint",
    "x: Reset  ↑↓: Scroll memory  q: Quit"]
  { title := " Help ", width, height, border := style, fill := style,
    rows := rows.map fun row => ⟨Row.text row style, style⟩ }

/-! ## Layout -/

/-- The screen row by row. Three fifths of the width are the left column. -/
def screen (d : Debugger) (width height : Nat) : List Row :=
  let left := width * 3 / 5
  let right := width - left
  let leftRows :=
    (d.listingPanel left (height - 23)).draw ++ (d.registersPanel left 14).draw ++
      (d.outputPanel left 6).draw ++ (d.statusPanel left 3).draw
  let rightRows := (d.memoryPanel right (height - 4)).draw ++ (helpPanel right 4).draw
  List.zipWith (· ++ ·) leftRows rightRows

end CellMachine.Debugger
