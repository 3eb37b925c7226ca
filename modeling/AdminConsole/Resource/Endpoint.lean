import AdminConsole.Console
import AdminConsole.Resource.Query
import AdminConsole.Resource.Records

/-!
Endpoints of the backend that list the children of a code. What the backend answers is classified:
throttling, server errors and breakdowns are transient, other refusals and unusable bodies are
permanent.
-/

namespace AdminConsole

structure Endpoint where
  path : String
  params : Entries Json

namespace Endpoint

/-- The resource that a console lists unless told otherwise. -/
def defaultResource : String := "menus"

def defaultName : String := "search"

def bare (name : String) : String := String.ofList (Path.stripChar '/' name.toList)

def ofNames (resource name : String) (params : Entries Json) : Endpoint :=
  ⟨"/" ++ bare resource ++ "/" ++ bare name, params⟩

def isTransientStatus (status : Int) : Bool := status = 429 || 500 ≤ status

def refuse (severity : Severity) (cause : FetchCause) (parent : String) (status : Option Int) :
    Fault :=
  .fetch ⟨severity, cause, some parent, status⟩

def classify (e : Endpoint) (parent : String) : Console.Response → Except Fault (List Node)
  | (status, body) =>
    if isTransientStatus status then
      .error (refuse .transient (.answered e.path parent status) parent (some status))
    else if 400 ≤ status then
      .error (refuse .permanent (.answered e.path parent status) parent (some status))
    else match body.read with
      | .error _ => .error (refuse .permanent (.notJson e.path parent) parent none)
      | .ok value => ((Records.value value).nodes (some parent)).mapError .fetch

/-- The parameters of a query: its filters lie over those of the endpoint. -/
def paramsOf (e : Endpoint) (q : Query) : Entries String :=
  { q with params := Entries.overlay e.params q.params }.toParams

def fetch (e : Endpoint) (q : Query) (c : Console) : Except Fault (List Node) × Console :=
  match c.send e.path (e.paramsOf q) with
  | (.error (.breakdown cause), c) =>
    (.error (refuse .transient (.unreachable e.path q.parent cause) q.parent none), c)
  | (.error (.fault cause), c) => (.error cause, c)
  | (.ok response, c) => (e.classify q.parent response, c)

end Endpoint

end AdminConsole
