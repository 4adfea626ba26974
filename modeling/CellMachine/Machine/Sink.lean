/-!
# CellMachine.Machine.Sink

Where a machine prints: the text so far, and the answers to the writes to come. A write is taken as
a whole or refused for a reason, and an empty text is always taken.
-/

namespace CellMachine

structure Sink where
  text : String := ""
  /-- The answers to the next writes: the reason of a refusal, or nothing. -/
  answers : List (Option String) := []
  /-- The answer to every write after those. -/
  refusal : Option String := none
  deriving DecidableEq, Repr

namespace Sink

/-- The sink after it was asked to take `s`, and the reason if it does not take it. -/
def write (out : Sink) (s : String) : Sink × Option String :=
  if s.isEmpty then (out, none)
  else
    let rest := { out with answers := out.answers.tail }
    match out.answers.headD out.refusal with
    | none => ({ rest with text := out.text ++ s }, none)
    | some reason => (rest, some reason)

end Sink

end CellMachine
