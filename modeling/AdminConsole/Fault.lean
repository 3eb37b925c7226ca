import AdminConsole.Http.Header
import AdminConsole.Session.Authentication
import AdminConsole.Session.Credentials

/-!
What can go wrong, by cause. A fetch error concerns one query for the children of a record; it is
transient when asking again may help. Every other fault ends what was being done.
-/

namespace AdminConsole

inductive Malformed where
  | entry (cause : EntryError)
  | authentication (cause : AuthenticationError)
  | credentials (cause : CredentialsError)
  | reported (message : String)

def Malformed.message : Malformed → String
  | .entry cause => cause.message
  | .authentication cause => cause.message
  | .credentials cause => cause.message
  | .reported message => message

inductive Refusal where
  | noSession
  | wrongCredentials
  | reported (message : String)
  deriving DecidableEq, Repr

def Refusal.message : Refusal → String
  | .noSession => "Authentication is invalid, please log in again."
  | .wrongCredentials => "Invalid username or password."
  | .reported message => message

structure Breakdown where
  name : String
  text : String
  deriving DecidableEq, Repr

def Breakdown.display (b : Breakdown) : String := b.name ++ "(" ++ Text.quoted b.text ++ ")"

/-- Whether asking again may help. The unclassified kind is never retried. -/
inductive Severity where
  | transient
  | permanent
  | unclassified
  deriving DecidableEq, Repr

inductive TokenAnswerError where
  | json (message : String)
  | record (cause : AuthenticationError)

def TokenAnswerError.message : TokenAnswerError → String
  | .json message => message
  | .record cause => cause.message

inductive FetchCause where
  | reported (message : String)
  | crashed (parent : String) (breakdown : Breakdown)
  | unreachable (path parent : String) (breakdown : Breakdown)
  | answered (path parent : String) (status : Int)
  | notJson (path parent : String)
  | notAList (kind : String)
  | notARecord (item : Json)
  | tokenUnreachable (path : String) (breakdown : Breakdown)
  | tokenAnswered (path : String) (status : Int)
  | tokenUnusable (path : String) (cause : TokenAnswerError)

def FetchCause.message : FetchCause → String
  | .reported message => message
  | .crashed parent breakdown => "pcode=" ++ parent ++ ": " ++ breakdown.display
  | .unreachable path parent breakdown =>
    path ++ " pcode=" ++ parent ++ ": " ++ breakdown.display
  | .answered path parent status =>
    path ++ " pcode=" ++ parent ++ " returned " ++ toString status
  | .notJson path parent => path ++ " pcode=" ++ parent ++ ": body is not JSON"
  | .notAList kind => "expected a list of records, got " ++ kind
  | .notARecord item => "unexpected record " ++ item.display
  | .tokenUnreachable path breakdown => path ++ ": " ++ breakdown.display
  | .tokenAnswered path status => path ++ " returned " ++ toString status
  | .tokenUnusable path cause => path ++ ": unusable authentication body (" ++ cause.message ++ ")"

structure FetchError where
  severity : Severity
  cause : FetchCause
  parent : Option String
  status : Option Int

namespace FetchError

def isTransient (e : FetchError) : Bool := e.severity = .transient

def message (e : FetchError) : String := e.cause.message

end FetchError

/-- A failure of an exchange that the transport itself did not cause. -/
inductive ExchangeFault where
  | decoding (message : String)
  | redirects (message : String)
  deriving DecidableEq, Repr

inductive Fault where
  | unauthenticated (refusal : Refusal) (loginUrl : String)
  | sessionExpired (refusal : Refusal) (loginUrl : String)
  | fetch (error : FetchError)
  | malformed (cause : Malformed)
  | number (cause : NumberError)
  | header (cause : Header.Unencodable)
  | exchange (cause : ExchangeFault)
  | general (message : String)

namespace Fault

def message : Fault → String
  | .unauthenticated refusal _ => refusal.message
  | .sessionExpired refusal _ => refusal.message
  | .fetch error => error.message
  | .malformed cause => cause.message
  | .number cause => cause.message
  | .header cause => cause.message
  | .exchange (.decoding message) => message
  | .exchange (.redirects message) => message
  | .general message => message

def defaultLoginUrl : String := "/auth/login"

end Fault

end AdminConsole
