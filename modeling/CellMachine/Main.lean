import CellMachine.Cli.Basic

/-!
# CellMachine.Main

The command line program: carries out the action of its arguments.
-/

namespace CellMachine

/-- The error of a failed access with the number and the reason that the system gives. Some calls
give the number with a minus sign. -/
def FileError.ofCode (code : UInt32) (reason : String) : FileError :=
  let number := if code < 0x80000000 then code else -code
  if number = 2 then .notFound
  else if number = 20 then .notDirectory
  else if number = 21 then .isDirectory
  else if number = 36 then .nameTooLong
  else .other s!"{reason} (os error {number})"

def FileError.ofSystem : IO.Error → FileError
  | .noFileOrDirectory _ code reason | .inappropriateType _ code reason
  | .invalidArgument _ code reason | .permissionDenied _ code reason
  | .resourceExhausted _ code reason => .ofCode code reason
  | e => .other (toString e)

/-- Carries out an action; the result is the exit code. -/
def Cli.Action.perform : Cli.Action → IO UInt32
  | .exit code => return code.toUInt32
  | .print text next => do
    IO.print text
    next.perform
  | .report text next => do
    IO.eprint text
    next.perform
  | .read name next => do
    let contents ← (IO.FS.readFile name).toBaseIO
    (next (contents.mapError FileError.ofSystem)).perform
  | .write name text next => do
    let result ← (IO.FS.writeFile name text).toBaseIO
    (next (result.mapError FileError.ofSystem)).perform

end CellMachine

def main (args : List String) : IO UInt32 := (CellMachine.Cli.ofArgs args).perform
