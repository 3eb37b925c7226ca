import AdminConsole.Entry.Codec
import AdminConsole.Json.Whole

/-!
An authentication: a token with a sliding window of validity. It is valid as long as fewer than
`expires` seconds have passed since the last access.
-/

namespace AdminConsole

structure Authentication where
  token : String
  expires : Int
  lastAccess : Int
  details : Json

inductive AuthenticationError where
  | notAnObject (kind : String)
  | missing (name : String)
  | notWhole (cause : WholeError)
  | noToken
  deriving DecidableEq, Repr

def AuthenticationError.message : AuthenticationError → String
  | .notAnObject kind => "authentication must be an object, got " ++ kind
  | .missing name => "authentication record incomplete: " ++ Text.quoted name
  | .notWhole cause => "authentication record incomplete: " ++ cause.message
  | .noToken => "authentication token missing"

namespace Authentication

def toJson (a : Authentication) : Json :=
  .object [("token", .text a.token), ("expires", .number (.whole a.expires)),
    ("lastAccessTime", .number (.whole a.lastAccess)), ("details", a.details)]

def required (name : String) (entries : Entries Json) : Except AuthenticationError Json :=
  match Entries.get? name entries with
  | some value => .ok value
  | none => .error (.missing name)

def requiredWhole (name : String) (entries : Entries Json) : Except AuthenticationError Int := do
  let value ← required name entries
  value.toWhole.mapError .notWhole

/-- Reads a record. The fields are looked at in the order token, expires, lastAccessTime; the
token's own shape is checked last. -/
def ofJson : Json → Except AuthenticationError Authentication
  | .object entries => do
    let token ← required "token" entries
    let expires ← requiredWhole "expires" entries
    let lastAccess ← requiredWhole "lastAccessTime" entries
    match token with
    | .text s =>
      if s = "" then .error .noToken
      else return ⟨s, expires, lastAccess, Json.field "details" entries⟩
    | _ => .error .noToken
  | value => .error (.notAnObject value.kindName)

def isExpired (a : Authentication) (now : Number) : Except NumberError Bool := do
  let elapsed ← now.sub (.whole a.lastAccess)
  return elapsed.atLeast a.expires

end Authentication

end AdminConsole
