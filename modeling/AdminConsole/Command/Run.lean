import AdminConsole.Command.Arguments
import AdminConsole.Http.Address
import AdminConsole.Resolve.Load
import AdminConsole.Settings.Basic
import AdminConsole.Tree.Display

/-!
Running one command. A run prints text and ends with a status: zero when all went well, one when
the session or the request failed, two for a tree with missing parts or a refused command line.
A fault that belongs to neither class ends the run without a status.
-/

namespace AdminConsole.Command

structure Surroundings where
  environment : Entries String
  terminal : Bool
  prompted : String

inductive Ending where
  | status (code : Nat)
  | fault (cause : Fault)
  | settings (issues : List Settings.Issue)
  | tuning (cause : TuningError)
  | interrupted

structure Outcome where
  ending : Ending
  printed : String

def refusedCommandLine : Outcome := ⟨.status 2, ""⟩

def loginHint (refusal : Refusal) (loginUrl : String) : String :=
  "  [!] " ++ refusal.message ++
    " Log in with: python main.py login --username <name>  (" ++ loginUrl ++ ")\n"

def outcomeOfFault : Fault → Outcome
  | .unauthenticated refusal loginUrl => ⟨.status 1, loginHint refusal loginUrl⟩
  | .sessionExpired refusal loginUrl => ⟨.status 1, loginHint refusal loginUrl⟩
  | .fetch error => ⟨.status 1, "  [!] Request failed: " ++ error.message ++ "\n"⟩
  | fault => ⟨.fault fault, ""⟩

def styleOf (s : Surroundings) (a : Arguments) : Style :=
  .ofSetting {
    noColor := Entries.get? "NO_COLOR" s.environment
    forceColor := Entries.get? "FORCE_COLOR" s.environment
    terminal := s.terminal
    disabled := a.noColor }

def printView (style : Style) (listing : Listing) (v : View) : String :=
  let v := if listing.collapsed then v else v.expandEvery
  match listing.format with
  | .terminal => v.render style
  | .rows => View.renderRows style v.allRows 2 ++ "\n"
  | .json => v.json ++ "\n"

def runLogin (username password : String) (remember : Bool) (c : Console) : Outcome × Console :=
  match c.login ⟨username, password⟩ remember with
  | (.ok a, c) =>
    (⟨.status 0, "Logged in. Session valid for " ++ toString a.expires ++
      "s of inactivity.\n"⟩, c)
  | (.error fault, c) => (outcomeOfFault fault, c)

def runLogout (c : Console) : Outcome × Console :=
  match c.logout true with
  | (.ok (), c) => (⟨.status 0, "Logged out.\n"⟩, c)
  | (.error fault, c) => (outcomeOfFault fault, c)

def runStatus (c : Console) : Outcome × Console :=
  match c.session.isLogged with
  | (.ok true, session) => (⟨.status 0, "Logged in.\n"⟩, { c with session })
  | (.ok false, session) =>
    (⟨.status 1, "Not logged in. Log in first (" ++ session.loginUrl ++ ").\n"⟩,
      { c with session })
  | (.error cause, session) => (outcomeOfFault (.number cause), { c with session })

def runMenus (t : Tuning) (style : Style) (listing : Listing) (c : Console) :
    Outcome × Console :=
  match c.autoLogin with
  | (.error fault, c) => (outcomeOfFault fault, c)
  | (.ok none, c) => (outcomeOfFault (.unauthenticated .noSession c.session.loginUrl), c)
  | (.ok (some _), c) =>
    let endpoint := Endpoint.ofNames listing.resource listing.endpoint []
    let params := Entries.ofList (listing.params.map fun (key, value) => (key, Json.text value))
    match Resolve.loadEndpoint t endpoint ⟨listing.parent, listing.tenant, params⟩ c with
    | (.ok v, c) =>
      (⟨.status (if v.report.isComplete then 0 else 2), printView style listing v⟩, c)
    | (.error (.fault fault), c) => (outcomeOfFault fault, c)
    | (.error .cancelled, c) => (⟨.interrupted, ""⟩, c)

def consoleOf (settings : Settings) (store : Store) (clock : Number) (backend : Backend) :
    Console where
  session := ⟨store, none, clock, settings.encodeStorage, settings.loginUrl⟩
  backend := backend
  basePath := (Address.read settings.apiBaseUrl).path
  wrapped := settings.encodeStorage
  requests := []

def runTask (settings : Settings) (s : Surroundings) (a : Arguments) (c : Console) :
    Outcome × Console :=
  match a.task with
  | .login username password remember =>
    let password := match password with
      | some given => if given = "" then s.prompted else given
      | none => s.prompted
    runLogin username password remember c
  | .logout => runLogout c
  | .status => runStatus c
  | .menus listing =>
    match settings.tuning none none none none with
    | .error cause => (⟨.tuning cause, ""⟩, c)
    | .ok t => runMenus t (styleOf s a) listing c

/-- Runs a command line over a store, at a time, against a backend. -/
def run (s : Surroundings) (store : Store) (clock : Number) (backend : Backend)
    (arguments : List String) : Outcome × Store × Backend × List Request :=
  match Arguments.read arguments with
  | none => (refusedCommandLine, store, backend, [])
  | some a =>
    match Settings.read [] s.environment with
    | .error issues => (⟨.settings issues, ""⟩, store, backend, [])
    | .ok settings =>
      let (outcome, c) := runTask settings s a (consoleOf settings store clock backend)
      (outcome, c.session.store, c.backend, c.requests)

end AdminConsole.Command
