import AdminConsole.Json.Value
import AdminConsole.Resource.Endpoint

/-!
Arguments of the command line. Options of the program come before the command, options of a
command after it. A long option may be shortened as long as one option fits, and takes its value
behind an equals sign or from the next argument; a value does not begin with a dash, unless it is a
negative number or holds a space. A repeated option keeps its last value.
-/

namespace AdminConsole.Command

inductive Format where
  | terminal
  | rows
  | json
  deriving DecidableEq, Repr

structure Listing where
  resource : String
  endpoint : String
  tenant : String
  parent : String
  params : List (String × String)
  collapsed : Bool
  format : Format
  deriving DecidableEq, Repr

inductive Task where
  | login (username : String) (password : Option String) (remember : Bool)
  | logout
  | status
  | menus (listing : Listing)
  deriving DecidableEq, Repr

structure Arguments where
  verbose : Bool
  noColor : Bool
  task : Task
  deriving DecidableEq, Repr

/-- A filter `KEY=VALUE`, cut at the first equals sign; the key is not empty. -/
def param? (text : String) : Option (String × String) :=
  let key := text.toList.takeWhile (· ≠ '=')
  match text.toList.dropWhile (· ≠ '=') with
  | _ :: value => if key.isEmpty then none else some (String.ofList key, String.ofList value)
  | [] => none

def paramMessage (text : String) : String := "expected KEY=VALUE, got " ++ Text.quoted text

inductive Arity where
  | flag
  | value
  deriving DecidableEq, Repr

/-- The options of the program or of one command: one-letter names and long names. -/
structure Options where
  short : List (Char × String)
  long : List (String × Arity)

def helpName : String := "help"

def programOptions : Options :=
  ⟨[('h', helpName), ('v', "verbose")],
    [(helpName, .flag), ("verbose", .flag), ("no-color", .flag)]⟩

def loginOptions : Options :=
  ⟨[('h', helpName)],
    [(helpName, .flag), ("username", .value), ("password", .value), ("remember", .flag)]⟩

def plainOptions : Options := ⟨[('h', helpName)], [(helpName, .flag)]⟩

def menusOptions : Options :=
  ⟨[('h', helpName)],
    [(helpName, .flag), ("resource", .value), ("endpoint", .value), ("tenant", .value),
      ("pcode", .value), ("param", .value), ("collapsed", .flag), ("format", .value)]⟩

/-- Digits, or digits with a point and at least one digit behind it, after a minus sign. -/
def isNegativeNumber : List Char → Bool
  | '-' :: rest =>
    let isDigit := fun c => (Text.digitValue? c).isSome
    match rest.dropWhile isDigit with
    | [] => !rest.isEmpty
    | '.' :: decimals => !decimals.isEmpty && decimals.all isDigit
    | _ => false
  | _ => false

inductive Shape where
  | positional
  | option (name : String) (value : Option String)
  | flags (names : List String)
  | unknown
  | ambiguous

/-- The long options that a shortened name fits; the full name fits alone. -/
def fitting (o : Options) (name : List Char) : List String :=
  if (o.long.map Prod.fst).contains (String.ofList name) then [String.ofList name]
  else (o.long.map Prod.fst).filter fun full => name.isPrefixOf full.toList

def shapeless (cs : List Char) : Shape :=
  if isNegativeNumber cs || cs.contains ' ' then .positional else .unknown

def letters (o : Options) (cs : List Char) : Option (List String) :=
  cs.mapM fun c => (o.short.find? fun entry => entry.1 = c).map Prod.snd

def shapeOf (o : Options) (argument : String) : Shape :=
  match argument.toList with
  | '-' :: '-' :: body =>
    let name := body.takeWhile (· ≠ '=')
    let value := match body.dropWhile (· ≠ '=') with
      | _ :: value => some (String.ofList value)
      | [] => none
    match fitting o name with
    | [full] => .option full value
    | [] => shapeless ('-' :: '-' :: body)
    | _ => .ambiguous
  | ['-'] => .positional
  | '-' :: body =>
    match body with
    | c :: _ =>
      if o.short.any fun entry => entry.1 = c then
        match letters o body with
        | some names => .flags names
        | none => .ambiguous
      else shapeless ('-' :: body)
    | [] => .positional
  | _ => .positional

/-- What is written on a command line up to its first positional argument: the options with their
values, and the arguments from there on. None if it is not well-formed. -/
def options (o : Options) : List String → Option (List (String × String) × List String)
  | [] => some ([], [])
  | argument :: rest =>
    match shapeOf o argument with
    | .positional => some ([], argument :: rest)
    | .unknown => none
    | .ambiguous => none
    | .flags names =>
      (options o rest).map fun (found, left) => (names.map (fun name => (name, "")) ++ found, left)
    | .option name value =>
      match Entries.get? name o.long, value with
      | some .flag, none => (options o rest).map fun (found, left) => ((name, "") :: found, left)
      | some .value, some value =>
        (options o rest).map fun (found, left) => ((name, value) :: found, left)
      | some .value, none =>
        match rest with
        | [] => none
        | value :: rest =>
          match shapeOf o value with
          | .positional =>
            (options o rest).map fun (found, left) => ((name, value) :: found, left)
          | _ => none
      | _, _ => none

/-- The options of a command, which has no positional arguments. -/
def onlyOptions (o : Options) (arguments : List String) : Option (List (String × String)) :=
  match options o arguments with
  | some (found, []) => if found.any (·.1 = helpName) then none else some found
  | _ => none

def isGiven (found : List (String × String)) (name : String) : Bool := found.any (·.1 = name)

/-- The last value of an option. -/
def value? (found : List (String × String)) (name : String) : Option String :=
  (found.reverse.find? fun entry => entry.1 = name).map Prod.snd

/-- Every value of an option in the order written. -/
def values (found : List (String × String)) (name : String) : List String :=
  (found.filter fun entry => entry.1 = name).map Prod.snd

def endpointNames : List String := ["search", "me"]

def format? (name : String) : Option Format :=
  if name = "terminal" then some .terminal
  else if name = "rows" then some .rows
  else if name = "json" then some .json
  else none

def loginTask (arguments : List String) : Option Task := do
  let found ← onlyOptions loginOptions arguments
  let username ← value? found "username"
  return .login username (value? found "password") (isGiven found "remember")

def menusTask (arguments : List String) : Option Task := do
  let found ← onlyOptions menusOptions arguments
  let params ← (values found "param").mapM param?
  let formats ← (values found "format").mapM format?
  if (values found "endpoint").all endpointNames.contains then
    return .menus {
      resource := (value? found "resource").getD Endpoint.defaultResource
      endpoint := (value? found "endpoint").getD Endpoint.defaultName
      tenant := (value? found "tenant").getD Record.rootCode
      parent := (value? found "pcode").getD Record.rootCode
      params
      collapsed := isGiven found "collapsed"
      format := formats.getLast?.getD .terminal }
  else none

def commandTask (name : String) (arguments : List String) : Option Task :=
  if name = "login" then loginTask arguments
  else if name = "logout" then (onlyOptions plainOptions arguments).map fun _ => .logout
  else if name = "status" then (onlyOptions plainOptions arguments).map fun _ => .status
  else if name = "menus" then menusTask arguments
  else none

/-- Reads a command line; none if it is refused. -/
def Arguments.read (arguments : List String) : Option Arguments :=
  match options programOptions arguments with
  | some (found, name :: rest) => do
    if isGiven found helpName then none
    let task ← commandTask name rest
    return ⟨isGiven found "verbose", isGiven found "no-color", task⟩
  | _ => none

end AdminConsole.Command
