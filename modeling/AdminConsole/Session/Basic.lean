import AdminConsole.Fault
import AdminConsole.Store

/-!
The session: an authentication held in memory and its copy in the store. A session is logged out
or authenticated; a logged-out session recovers from a valid stored entry, which moves the last
access to the present and writes the entry again. An entry that is unreadable or expired is
removed when it is read.
-/

namespace AdminConsole

structure Session where
  store : Store
  held : Option Authentication
  clock : Number
  wrapped : Bool
  loginUrl : String

namespace Session

def authenticationKey : String := "authentication"

/-- The session of a new process over the same store and clock. -/
def restart (s : Session) : Session := { s with held := none }

def isAuthenticated (s : Session) : Bool := s.held.isSome

def login (a : Authentication) (s : Session) : Except NumberError Unit × Session :=
  let s := { s with held := some a }
  match Entry.encode s.wrapped a.toJson with
  | .ok entry => (.ok (), { s with store := s.store.set authenticationKey entry })
  | .error cause => (.error cause, s)

def logout (s : Session) : Session :=
  { s with held := none, store := s.store.remove authenticationKey }

/-- An entry as an authentication: what is malformed is told from numbers too long to read. -/
def readEntry (entry : String) : Except NumberError (Except Malformed Authentication) :=
  match Entry.decode entry with
  | .error (.number cause) => .error cause
  | .error (.malformed cause) => .ok (.error (.entry cause))
  | .ok value => .ok ((Authentication.ofJson value).mapError .authentication)

def load (s : Session) : Except NumberError (Option Authentication) × Session :=
  match s.store.get authenticationKey with
  | none => (.ok none, s)
  | some entry =>
    if entry = "" then (.ok none, s)
    else match readEntry entry with
      | .error cause => (.error cause, s)
      | .ok (.error _) => (.ok none, { s with store := s.store.remove authenticationKey })
      | .ok (.ok a) =>
        match a.isExpired s.clock with
        | .error cause => (.error cause, s)
        | .ok true => (.ok none, { s with store := s.store.remove authenticationKey })
        | .ok false => (.ok (some a), s)

/-- The authentication in memory, or the stored one brought up to the present. -/
def authentication (s : Session) : Except NumberError (Option Authentication) × Session :=
  match s.held with
  | some a => (.ok (some a), s)
  | none =>
    match s.load with
    | (.error cause, s) => (.error cause, s)
    | (.ok none, s) => (.ok none, s)
    | (.ok (some a), s) =>
      match s.clock.truncate with
      | .error cause => (.error cause, s)
      | .ok now =>
        let a := { a with lastAccess := now }
        match s.login a with
        | (.error cause, s) => (.error cause, s)
        | (.ok (), s) => (.ok (some a), s)

/-- The token of the authentication; without one the user has to log in. -/
def authToken (s : Session) : Except Fault String × Session :=
  match s.authentication with
  | (.error cause, s) => (.error (.number cause), s)
  | (.ok none, s) => (.error (.unauthenticated .noSession s.loginUrl), s)
  | (.ok (some a), s) => (.ok a.token, s)

/-- Whether a valid authentication is held or stored. The session is not recovered. -/
def isLogged (s : Session) : Except NumberError Bool × Session :=
  match s.held with
  | some _ => (.ok true, s)
  | none =>
    match s.load with
    | (.error cause, s) => (.error cause, s)
    | (.ok found, s) => (.ok found.isSome, s)

def advance (seconds : Number) (s : Session) : Except NumberError Number × Session :=
  match s.clock.add seconds with
  | .ok now => (.ok now, { s with clock := now })
  | .error cause => (.error cause, s)

end Session

end AdminConsole
