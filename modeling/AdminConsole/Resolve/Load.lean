import AdminConsole.Resolve.Script
import AdminConsole.Resolve.Progress
import AdminConsole.Resolve.Sequence
import AdminConsole.Resource.Endpoint

/-!
Loading views. The forest under a code is resolved from a source, such as an endpoint or a script,
and each root is listed. A pass settles the queries of a level one after another or side by side.
-/

namespace AdminConsole.Resolve

inductive Manner (σ : Type) where
  | inSequence
  | onSchedule (cancelAt : Option Binary64) (order : Order σ)

def resolve {σ : Type} (t : Tuning) (source : Source σ) (depth : Nat) (parent : String) (s : σ) :
    Manner σ → Except Halt (List Node) × Ledger σ
  | .inSequence =>
    let (result, p) := forest (inSequence t source) depth parent (Pass.start s)
    (result, p.ledger)
  | .onSchedule cancelAt order =>
    let (result, line) :=
      forest (onSchedule t source cancelAt order) depth parent (Timeline.start s)
    (result, line.ledger)

def load {σ : Type} (t : Tuning) (source : Source σ) (depth : Nat) (parent : String) (s : σ)
    (manner : Manner σ) : Except Halt View × Ledger σ :=
  match resolve t source depth parent s manner with
  | (.ok roots, ledger) => (.ok (.ofRoots roots ledger.report), ledger)
  | (.error halt, ledger) => (.error halt, ledger)

/-- An endpoint as a source, with the tenant and the filters of one pass. -/
def endpointSource (e : Endpoint) (tenant : String) (params : Entries Json) : Source Console :=
  fun code c =>
    let (outcome, c) := e.fetch ⟨code, tenant, params⟩ c
    (⟨.whole 0, true, outcome⟩, c)

def answerNodes : Answer → List Node
  | .response _ body =>
    match body.read with
    | .error _ => []
    | .ok value => ((Records.value value).nodes none).toOption.getD []
  | _ => []

/-- A bound on the codes that a backend can bring, hence on the levels of its forest. -/
def backendDepth (b : Backend) : Nat :=
  (b.routes.flatMap fun route => route.2.flatMap answerNodes).length + 1

/-- Loads the view under a code from an endpoint, which answers each request at once. -/
def loadEndpoint (t : Tuning) (e : Endpoint) (q : Query) (c : Console) :
    Except Stop View × Console :=
  let (result, ledger) := load t (endpointSource e q.tenant q.params) (backendDepth c.backend)
    q.parent c (.onSchedule none firstCome)
  (result.mapError Halt.stop, ledger.source)

def reported (report : Report) : Except Halt (List Node) → Except Stop (List Node × Report)
  | .ok roots => .ok (roots, report)
  | .error halt => .error halt.stop

def scriptForest (t : Tuning) (script : Script) (parent : String) :
    Except Stop (List Node × Report) × Pass Script :=
  let (result, p) := forest (inSequence t Script.source) script.depth parent (Pass.start script)
  (reported p.report result, p)

def scriptSchedule (t : Tuning) (cancelAt : Option Binary64) (script : Script)
    (parent : String) : Except Stop (List Node × Report) × Timeline Script :=
  let (result, line) := forest (onSchedule t Script.source cancelAt firstCome) script.depth parent
    (Timeline.start script)
  (reported line.report result, line)

end AdminConsole.Resolve
