import CellMachine.Files

/-!
# CellMachine.Cli.Action

Commands as sequences of effects on the outside world.

* `Action`     — what a command does, one effect after the other.
* `Action.run` — the outcome over files.
-/

namespace CellMachine.Cli

inductive Action where
  | exit (code : Nat)
  | print (text : String) (next : Action)
  | report (text : String) (next : Action)
  | read (name : String) (next : Except FileError String → Action)
  | write (name text : String) (next : Except FileError Unit → Action)

/-- What a command leaves behind. -/
structure Outcome where
  files : Files
  stdout : String := ""
  stderr : String := ""
  exit : Nat := 0
  deriving DecidableEq, Repr

namespace Action

def runFrom (o : Outcome) : Action → Outcome
  | .exit code => { o with exit := code }
  | .print text next => next.runFrom { o with stdout := o.stdout ++ text }
  | .report text next => next.runFrom { o with stderr := o.stderr ++ text }
  | .read name next => (next (o.files.read name)).runFrom o
  | .write name text next =>
    match o.files.write name text with
    | .ok files => (next (.ok ())).runFrom { o with files }
    | .error e => (next (.error e)).runFrom o

def run (files : Files) (a : Action) : Outcome := a.runFrom { files }

def fail (text : String) : Action := .report ("❌ " ++ text ++ "\n") (.exit 1)

end Action

end CellMachine.Cli
