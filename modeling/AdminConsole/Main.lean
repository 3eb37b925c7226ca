import AdminConsole.Command.Run

/-!
The program. The arguments are those of `Command.run`. What the run finds around it is one JSON
object on a line of standard input: the time `now`, the texts `environment` and `store` by name,
whether output goes to a `terminal`, the `password` for the prompt, and under `routes` the answers
of the backend. An answer has a `status` and a `body`, or the `name` and `text` of a breakdown.
-/

namespace AdminConsole.Main

def textOf (name : String) (v : Entries Json) : String := (Json.field name v).plain

def entriesOf (name : String) (v : Entries Json) : Entries Json :=
  (Json.field name v).entries?.getD []

def textsOf (name : String) (v : Entries Json) : Entries String :=
  (entriesOf name v).map fun (key, value) => (key, value.plain)

def statusOf (v : Entries Json) : Int :=
  match Json.field "status" v with
  | .number (.whole n) => n
  | _ => 200

def answerOf (v : Json) : Answer :=
  let entries := v.entries?.getD []
  match Entries.get? "name" entries with
  | some name => .breakdown ⟨name.plain, textOf "text" entries⟩
  | none =>
    match Entries.get? "body" entries with
    | some body => .response (statusOf entries) (.json body)
    | none => .response (statusOf entries) (.bytes [])

def answersOf : Json → List Answer
  | .list answers => answers.map answerOf
  | _ => []

def backendOf (v : Entries Json) : Backend :=
  ⟨(entriesOf "routes" v).map fun (name, answers) => (name, answersOf answers)⟩

def clockOf (v : Entries Json) : Number :=
  match Json.field "now" v with
  | .number now => now
  | _ => .whole 0

def surroundingsOf (v : Entries Json) : Command.Surroundings where
  environment := textsOf "environment" v
  terminal := (Json.field "terminal" v).isPresent
  prompted := textOf "password" v

/-- The status of a run and what is said about it on the error output. -/
def close : Command.Ending → Nat × String
  | .status code => (code, "")
  | .fault cause => (1, cause.message ++ "\n")
  | .settings issues => (1, String.join (issues.map fun issue => issue.cause.message ++ "\n"))
  | .tuning cause => (1, cause.message ++ "\n")
  | .interrupted => (1, "")

def runAmid (v : Entries Json) (arguments : List String) : Command.Outcome :=
  let store := (Store.memory []).fill (textsOf "store" v)
  (Command.run (surroundingsOf v) store (clockOf v) (backendOf v) arguments).1

end AdminConsole.Main

def main (arguments : List String) : IO UInt32 := do
  let line ← (← IO.getStdin).getLine
  let described := ((AdminConsole.Json.readText line).toOption.bind (·.entries?)).getD []
  let outcome := AdminConsole.Main.runAmid described arguments
  IO.print outcome.printed
  let (code, said) := AdminConsole.Main.close outcome.ending
  IO.eprint said
  return UInt32.ofNat code
