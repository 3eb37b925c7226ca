import AdminConsole.Http.Exchange
import AdminConsole.Http.Path
import AdminConsole.Session.Basic

/-!
The console: a session, the backend it talks to, and the requests sent so far. Every request shows
that it comes from a script; one without authorization carries the token of the session, if there
is one. A 401 or 407 ends the session, except in answer to basic credentials.
-/

namespace AdminConsole

structure Console where
  session : Session
  backend : Backend
  basePath : List Char
  wrapped : Bool
  requests : List Request

inductive SendFault where
  | breakdown (cause : Breakdown)
  | fault (cause : Fault)

namespace Console

def tokenPath : String := "/oauth2/token"

def logoutPath : String := "/oauth2/logout"

def credentialsKey : String := "credentials"

abbrev Response := Int × Body

def endsSession (status : Int) : Bool := status = 401 || status = 407

def transmit (path : String) (params : Entries String) (authorization : Option String)
    (c : Console) : Except SendFault Response × Console :=
  let path := Path.behind c.basePath path
  let request := ⟨"GET", path, params, authorization, "XMLHttpRequest"⟩
  let (answer, backend) := c.backend.answer path (Entries.get? "pcode" params)
  let c := { c with backend, requests := c.requests ++ [request] }
  match answer with
  | .response status body => (.ok (status, body), c)
  | .breakdown cause => (.error (.breakdown cause), c)
  | .fault cause => (.error (.fault (.exchange cause)), c)

def inspect : Except SendFault Response × Console → Except SendFault Response × Console
  | (.ok (status, body), c) =>
    if endsSession status then
      (.error (.fault (.unauthenticated .noSession c.session.loginUrl)),
        { c with session := c.session.logout })
    else (.ok (status, body), c)
  | (.error cause, c) => (.error cause, c)

def sendAuthorized (path : String) (authorization : String) (c : Console) :
    Except SendFault Response × Console :=
  match Header.unencodable? authorization with
  | some cause => (.error (.fault (.header cause)), c)
  | none =>
    let outcome := c.transmit path [] (some authorization)
    if Header.isBasic authorization then outcome else inspect outcome

/-- Sends a request with the token of the session, if there is one. -/
def send (path : String) (params : Entries String) (c : Console) :
    Except SendFault Response × Console :=
  match c.session.authentication with
  | (.error cause, session) => (.error (.fault (.number cause)), { c with session })
  | (.ok none, session) => inspect ({ c with session }.transmit path params none)
  | (.ok (some a), session) =>
    let value := Header.bearer a.token
    match Header.unencodable? value with
    | some cause => (.error (.fault (.header cause)), { c with session })
    | none => inspect ({ c with session }.transmit path params (some value))

def remember (credentials : Credentials) (c : Console) : Except Fault Unit × Console :=
  match Entry.encode c.wrapped credentials.toJson with
  | .error cause => (.error (.number cause), c)
  | .ok entry =>
    (.ok (), { c with session.store := c.session.store.set credentialsKey entry })

def forget (c : Console) : Console :=
  { c with session.store := c.session.store.remove credentialsKey }

/-- An entry as credentials: what is malformed is told from numbers too long to read. -/
def readCredentials (entry : String) : Except NumberError (Except Malformed Credentials) :=
  match Entry.decode entry with
  | .error (.number cause) => .error cause
  | .error (.malformed cause) => .ok (.error (.entry cause))
  | .ok value => .ok ((Credentials.ofJson value).mapError .credentials)

/-- The stored credentials; an entry that cannot be read is removed. -/
def remembered (c : Console) : Except Fault (Option Credentials) × Console :=
  match c.session.store.get credentialsKey with
  | none => (.ok none, c)
  | some entry =>
    if entry = "" then (.ok none, c)
    else match readCredentials entry with
      | .error cause => (.error (.number cause), c)
      | .ok (.error _) => (.ok none, c.forget)
      | .ok (.ok credentials) => (.ok (some credentials), c)

def tokenError (severity : Severity) (cause : FetchCause) (status : Option Int) : Fault :=
  .fetch ⟨severity, cause, none, status⟩

def readToken (loginUrl : String) : Response → Except Fault Authentication
  | (status, body) =>
    if status = 401 ∨ status = 403 then .error (.unauthenticated .wrongCredentials loginUrl)
    else if 500 ≤ status then
      .error (tokenError .transient (.tokenAnswered tokenPath status) (some status))
    else if 400 ≤ status then
      .error (tokenError .permanent (.tokenAnswered tokenPath status) (some status))
    else match body.read with
      | .error cause =>
        .error (tokenError .permanent (.tokenUnusable tokenPath (.json cause.message)) none)
      | .ok value =>
        match Authentication.ofJson value with
        | .error cause =>
          .error (tokenError .permanent (.tokenUnusable tokenPath (.record cause)) none)
        | .ok a => .ok a

def requestToken (credentials : Credentials) (c : Console) :
    Except Fault Authentication × Console :=
  match c.sendAuthorized tokenPath (Header.basic credentials.username credentials.password) with
  | (.error (.breakdown cause), c) =>
    (.error (tokenError .transient (.tokenUnreachable tokenPath cause) none), c)
  | (.error (.fault cause), c) => (.error cause, c)
  | (.ok response, c) => (readToken c.session.loginUrl response, c)

def login (credentials : Credentials) (keep : Bool) (c : Console) :
    Except Fault Authentication × Console :=
  match c.requestToken credentials with
  | (.error cause, c) => (.error cause, c)
  | (.ok a, c) =>
    match c.session.login a with
    | (.error cause, session) => (.error (.number cause), { c with session })
    | (.ok (), session) =>
      let c := { c with session }
      if keep then
        match c.remember credentials with
        | (.error cause, c) => (.error cause, c)
        | (.ok (), c) => (.ok a, c)
      else (.ok a, c)

/-- Tells the backend that a token is no longer used. A backend that cannot be reached or refuses
is ignored. -/
def revoke (token : String) (c : Console) : Except Fault Unit × Console :=
  match c.sendAuthorized logoutPath (Header.bearer token) with
  | (.ok _, c) => (.ok (), c)
  | (.error (.breakdown _), c) => (.ok (), c)
  | (.error (.fault (.exchange _)), c) => (.ok (), c)
  | (.error (.fault (.unauthenticated _ _)), c) => (.ok (), c)
  | (.error (.fault cause), c) => (.error cause, c)

def endingToken (s : Session) : Except Fault (Option String) × Session :=
  match s.isLogged with
  | (.error cause, s) => (.error (.number cause), s)
  | (.ok false, s) => (.ok none, s)
  | (.ok true, s) =>
    match s.authToken with
    | (.error cause, s) => (.error cause, s)
    | (.ok token, s) => (.ok (some token), s)

/-- Ends the session here first, then at the backend. -/
def logout (forgetting : Bool) (c : Console) : Except Fault Unit × Console :=
  match endingToken c.session with
  | (.error cause, session) => (.error cause, { c with session })
  | (.ok token, session) =>
    let c := { c with session := session.logout }
    let c := if forgetting then c.forget else c
    match token with
    | none => (.ok (), c)
    | some token => c.revoke token

/-- Recovers the session, or logs in with the stored credentials. Credentials that are refused are
forgotten. -/
def autoLogin (c : Console) : Except Fault (Option Authentication) × Console :=
  match c.session.authentication with
  | (.error cause, session) => (.error (.number cause), { c with session })
  | (.ok (some a), session) => (.ok (some a), { c with session })
  | (.ok none, session) =>
    match { c with session }.remembered with
    | (.error cause, c) => (.error cause, c)
    | (.ok none, c) => (.ok none, c)
    | (.ok (some credentials), c) =>
      match c.login credentials false with
      | (.ok a, c) => (.ok (some a), c)
      | (.error (.unauthenticated _ _), c) => (.ok none, c.forget)
      | (.error cause, c) => (.error cause, c)

end Console

end AdminConsole
