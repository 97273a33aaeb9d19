import SqlComposer.Program
import Std.Time.DateTime.Timestamp

/-!
# The executable

Reads files, the standard input, the clock and the environment for `Program.run`, and writes its outcome.
-/

open SqlComposer

/-- The result of an action, none if it fails. -/
def tryRead (action : IO String) : IO (Option String) :=
  try
    let text ← action
    pure (some text)
  catch _ => pure none

/-- The current moment of universal time. -/
def currentMoment : IO DateTime := do
  let t ← Std.Time.Timestamp.now
  let nanoseconds := t.toNanosecondsSinceUnixEpoch.val
  let moment := DateTime.ofSeconds? (nanoseconds / 1000000000) (nanoseconds % 1000000000).toNat
  pure (moment.getD (.ofDate ⟨1970, 1, 1, by decide⟩))

/-- The whole standard input. -/
def standardInput : IO String := do
  let stream ← IO.getStdin
  stream.readToEnd

def localHost : Host IO where
  fileText path := tryRead (IO.FS.readFile path)
  inputText := tryRead standardInput
  now := currentMoment

def main (args : List String) : IO UInt32 := do
  let name ← IO.getEnv Program.engineVariable
  let outcome ← Program.run localHost args name
  IO.print outcome.output
  match outcome with
  | .misused e => IO.eprintln ("error: " ++ e.message)
  | .failed _ message => IO.eprintln ("Error: " ++ message)
  | .written _ => pure ()
  pure (UInt32.ofNat outcome.exitCode)
