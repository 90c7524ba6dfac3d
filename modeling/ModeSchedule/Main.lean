/-
ModeSchedule.Main — the command line.

The first argument names a file with a configuration. The session it describes
is performed, its messages go to the standard output, and the file it saves goes
to the path that the configuration gives.
-/
import ModeSchedule.App.Session

open ModeSchedule

/-- What is said about a failure. -/
def ModeSchedule.App.Failure.text : App.Failure → String
  | .config cause => cause.message
  | .rejected cause => cause.message
  | .machine cause => cause.message
  | .plan cause => cause.message
  | .save cause => cause.message
  | .swarm .negativeSeed => "the seed is negative"
  | .swarm _ => "the refinement failed"

def main (arguments : List String) : IO UInt32 := do
  let some name := arguments.head?
    | IO.eprintln "usage: the name of a configuration file"; return 2
  let text ← IO.FS.readFile name
  let some configuration := (Json.parse? Json.Dialect.file text : Option (Json Float))
    | IO.eprintln "the configuration cannot be read"; return 2
  let pauses := Check.boolean ((configuration.get "search").get "interactive")
  let input ← IO.getStdin
  let typed ← if pauses.toOption.getD false then input.readToEnd else pure ""
  let path := match configuration.get "output" with
    | .str s => s
    | _ => "output.json"
  let entropy ← IO.rand 0 0xffffffff
  let session := App.Session.perform configuration path (Prompt.keysOfText typed) entropy
  for line in Message.select .info session.messages do
    IO.println line
  match session.file with
  | some content => IO.FS.writeFile path content
  | none => pure ()
  match session.failure with
  | some cause => IO.eprintln cause.text; return 1
  | none => return 0
