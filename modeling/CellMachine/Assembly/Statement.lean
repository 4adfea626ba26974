import CellMachine.Assembly.Error
import CellMachine.Opcode
import CellMachine.Registers.Name
import CellMachine.Text.Blank
import CellMachine.Text.Numeral
import CellMachine.Text.Uppercase

/-!
# CellMachine.Assembly.Statement

The statements of an assembly source.

* `Operand`        — a number, or a label that is resolved later.
* `Statement`      — what one line asks for.
* `splitLabel`     — a line as its label, if it has one, and its statement.
* `readStatement`  — a statement from its text.

Letter case does not matter, and operands are separated by commas and blanks.
-/

namespace CellMachine.Assembly

inductive Operand where
  | value (w : Word)
  /-- The address of a label. -/
  | label (name : String)
  /-- The address before a label: a jump goes there to continue at the label. -/
  | beforeLabel (name : String)
  deriving DecidableEq, Repr

inductive Statement where
  /-- Go on at this address. -/
  | origin (addr : Word)
  | data (operand : Operand)
  | instruction (op : Opcode) (operands : List Operand)
  deriving DecidableEq, Repr

/-- A minus sign, if a text has one, and what follows it. -/
def splitMinus : List Char → Bool × List Char
  | '-' :: rest => (true, rest)
  | text => (false, text)

/-- What follows the mark of hexadecimal digits. -/
def hexDigits? : List Char → Option (List Char)
  | '0' :: 'x' :: hex | '0' :: 'X' :: hex => some hex
  | _ => none

/-- A decimal number in the range of words, or hexadecimal digits after `0x` that give the bits of
a word; both with an optional minus sign. -/
def readNumber (text : List Char) : Option Word :=
  let (negative, digits) := splitMinus text
  match hexDigits? digits with
  | some hex => (Text.readHex hex).map fun n =>
    if negative then -Int64.ofNat n else Int64.ofNat n
  | none => if digits.all Char.isDigit then (Text.readWord text).toOption else none

/-- Identifiers are ASCII letters, digits and underscores, and do not start with a digit. -/
def isIdentifier : List Char → Bool
  | [] => false
  | c :: rest => (c.isAlpha || c == '_') && rest.all fun c => c.isAlphanum || c == '_'

/-- The name under which a label is known. -/
def labelKey (text : List Char) : String := String.ofList (Text.upper text)

/-- The line up to its first colon without blanks around it, and what follows the colon; a line
without a colon has no label. -/
def splitLabel (line : List Char) : Option (List Char) × List Char :=
  match line.dropWhile (· ≠ ':') with
  | [] => (none, line)
  | _ :: rest => (some (Text.trim (line.takeWhile (· ≠ ':'))), rest)

/-- The key of a label that is being defined. Register names are no labels. -/
def readLabel (text : List Char) : Except Cause String :=
  if isIdentifier text && (Registers.ofName? text).isNone then .ok (labelKey text)
  else .error (.invalidLabel (String.ofList text))

def readOperand (kind : OperandKind) (text : List Char) : Except Cause Operand :=
  let invalid := Except.error (Cause.invalidOperand (String.ofList text))
  match kind with
  | .register =>
    match Registers.ofName? text with
    | some i => .ok (.value (Int64.ofNat i))
    | none => (readNumber text).elim invalid fun w => .ok (.value w)
  | .immediate | .target =>
    match readNumber text with
    | some w => .ok (.value w)
    | none =>
      if isIdentifier text then
        let key := labelKey text
        .ok (if kind = .target then .beforeLabel key else .label key)
      else invalid

def readOrigin (text : List Char) : Except Cause Word :=
  match readNumber text with
  | some w => .ok w
  | none => .error (.invalidOrigin (String.ofList text))

def isSeparator (c : Char) : Bool := c == ',' || Text.isBlank c

def checkCount (mnemonic : List Char) (expected found : Nat) : Except Cause Unit :=
  if found = expected then .ok ()
  else .error (.operandCount (String.ofList mnemonic) expected found)

/-- The statement of a mnemonic in capitals and the operands after it. -/
def readWords (mnemonic : List Char) (operands : List (List Char)) : Except Cause Statement := do
  if mnemonic = "ORG".toList then
    checkCount mnemonic 1 operands.length
    return .origin (← readOrigin (operands.headD []))
  else if mnemonic = "DAT".toList ∨ mnemonic = "DATA".toList then
    checkCount mnemonic 1 operands.length
    return .data (← readOperand .immediate (operands.headD []))
  else
    match Opcode.ofMnemonic? mnemonic with
    | none => throw (.unknownMnemonic (String.ofList mnemonic))
    | some op =>
      checkCount mnemonic op.fields.length operands.length
      let values ← (op.fields.zip operands).mapM fun (f, text) => readOperand f.kind text
      return .instruction op values

def readStatement (text : List Char) : Except Cause (Option Statement) :=
  match Text.words isSeparator text with
  | [] => .ok none
  | mnemonic :: operands => (readWords (Text.upper mnemonic) operands).map some

end CellMachine.Assembly
