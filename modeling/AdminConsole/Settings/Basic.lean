import AdminConsole.Resolve.Source
import AdminConsole.Settings.Fields
import AdminConsole.Store

/-!
The settings of a console. A field is taken from the arguments, else from the environment, whose
names count in any case, else from its default. All refused fields are reported together; the
rules that join fields are looked at only when every field is fine.
-/

namespace AdminConsole

structure Settings where
  debug : Bool
  logLevel : String
  apiBaseUrl : String
  requestTimeout : Binary64
  loginUrl : String
  tokenStore : Settings.StoreKind
  tokenStoreUrl : Option String
  encodeStorage : Bool
  maxAttempts : Int
  stagger : Binary64
  backoff : Binary64
  maxConcurrency : Int

namespace Settings

structure Issue where
  field : Option String
  cause : Refused
  deriving DecidableEq, Repr

inductive Checked (α : Type) where
  | fine (value : α)
  | refused (issues : List Issue)

/-- Applies a checked function to a checked value; the issues of both are kept. -/
def Checked.and {α β : Type} (f : Checked (α → β)) (x : Checked α) : Checked β :=
  match f, x with
  | .fine f, .fine x => .fine (f x)
  | .fine _, .refused issues => .refused issues
  | .refused issues, .fine _ => .refused issues
  | .refused first, .refused second => .refused (first ++ second)

/-- The value given for a field; of several variables with its name the last one counts. -/
def given? (arguments : Entries Json) (environment : Entries String) (name : String) :
    Option Json :=
  match Entries.get? name arguments with
  | some value => some value
  | none =>
    (environment.reverse.find? fun entry => lowerAscii entry.1 = name).map fun entry =>
      .text entry.2

def field {α : Type} (given : String → Option Json) (name : String)
    (read : Json → Except Refused α) (default : α) : Checked α :=
  match given name with
  | none => .fine default
  | some value =>
    match read value with
    | .ok x => .fine x
    | .error cause => .refused [⟨some name, cause⟩]

/-- Every field, in the order in which they are reported. -/
def ofFields (given : String → Option Json) : Checked Settings :=
  (Checked.fine Settings.mk)
    |>.and (field given "debug" readBool false)
    |>.and (field given "log_level" readText "INFO")
    |>.and (field given "api_base_url" readAddress "http://localhost:8080")
    |>.and (field given "request_timeout" readReal (.ofDecimal false 10 0))
    |>.and (field given "login_url" readText "/auth/login")
    |>.and (field given "token_store" readStore .table)
    |>.and (field given "token_store_url" (fun v => some <$> readText v) none)
    |>.and (field given "encode_storage" readBool true)
    |>.and (field given "resolve_max_attempts" readWhole 3)
    |>.and (field given "resolve_stagger_seconds" readReal (.ofDecimal false 1 (-1)))
    |>.and (field given "resolve_backoff_seconds" readReal (.ofDecimal false 2 (-1)))
    |>.and (field given "resolve_max_concurrency" readWhole 8)

def isBelowZero (x : Binary64) : Bool := x.lt .zero

/-- The first rule that the settings break. -/
def broken? (s : Settings) : Option Refused :=
  if s.maxAttempts < 1 then some .attempts
  else if s.maxConcurrency < 1 then some .concurrency
  else if isBelowZero s.stagger || isBelowZero s.backoff then some .delays
  else if isBelowZero s.requestTimeout || s.requestTimeout.isZero then some .timeout
  else none

def read (arguments : Entries Json) (environment : Entries String) :
    Except (List Issue) Settings :=
  match ofFields (given? arguments environment) with
  | .refused issues => .error issues
  | .fine s =>
    match s.broken? with
    | some cause => .error [⟨none, cause⟩]
    | none => .ok s

def store (s : Settings) : Store :=
  match s.tokenStore with
  | .memory => .memory []
  | .discarding => .discarding
  | .table =>
    let volatile := (s.tokenStoreUrl.getD "").splitOn ":memory:"
    .table [] (volatile.length = 1)

/-- The tuning of a pass, some of it given for this pass alone. -/
def tuning (s : Settings) (attempts : Option Int) (stagger backoff : Option Number)
    (concurrency : Option Int) : Except TuningError Tuning :=
  Tuning.make (attempts.getD s.maxAttempts) (stagger.getD (.real s.stagger))
    (backoff.getD (.real s.backoff)) (concurrency.getD s.maxConcurrency)

/-- The seconds that making a connection may take: at most five. -/
def connectTimeout (s : Settings) : Binary64 :=
  let five := Binary64.ofDecimal false 5 0
  if s.requestTimeout.lt five then s.requestTimeout else five

end Settings

end AdminConsole
