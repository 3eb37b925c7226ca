import AdminConsole.Fault
import AdminConsole.Text.Encoding

/-!
Exchanges with the backend. A backend answers by route: a route for a path and a parent code goes
before the route for the path alone. The answers of a route are used in order and the last one
stays; a request without a route finds nothing.
-/

namespace AdminConsole

structure Request where
  method : String
  path : String
  params : Entries String
  authorization : Option String
  requestedWith : String
  deriving DecidableEq, Repr

inductive Body where
  | json (value : Json)
  | bytes (data : List UInt8)

inductive BodyError where
  | text (cause : Text.Encoding.Error)
  | json (cause : Json.ReadError) (content : List Char)

def BodyError.message : BodyError → String
  | .text cause => cause.message
  | .json cause content => cause.messageIn content

/-- The JSON value of a body. A byte order mark is skipped; a second one is an unexpected character,
and half a surrogate pair that stands alone is read as U+FFFD. -/
def Body.read : Body → Except BodyError Json
  | .json value => .ok value
  | .bytes data =>
    match Text.Encoding.decode data with
    | .error cause => .error (.text cause)
    | .ok numbers =>
      let text := numbers.map Text.unitChar
      let value := if text.head? = some '\uFEFF' then Json.fail .value text else Json.read text
      match value with
      | .ok value => .ok value
      | .error cause => .error (.json cause text)

inductive Answer where
  | response (status : Int) (body : Body)
  | breakdown (cause : Breakdown)
  | fault (cause : ExchangeFault)

def Answer.notFound : Answer := .response 404 (.bytes [])

structure Backend where
  routes : Entries (List Answer)

namespace Backend

def routeOf (b : Backend) (path : String) (parent : Option String) : String :=
  match parent with
  | none => path
  | some code =>
    let name := path ++ "#" ++ code
    if (Entries.get? name b.routes).isSome then name else path

def answer (b : Backend) (path : String) (parent : Option String) : Answer × Backend :=
  let name := b.routeOf path parent
  match Entries.get? name b.routes with
  | some (first :: second :: rest) =>
    (first, { b with routes := Entries.put name (second :: rest) b.routes })
  | some [last] => (last, b)
  | _ => (.notFound, b)

end Backend

end AdminConsole
