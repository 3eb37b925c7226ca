import AdminConsole.Json.Value
import AdminConsole.Text.Blank
import AdminConsole.Text.Digit
import AdminConsole.Text.Lower

/-!
Fields of the settings. A field is given as a JSON value or as text from the environment; each kind
of field accepts the values that stand for it without loss and says why it refuses another.
-/

namespace AdminConsole.Settings

inductive Refused where
  | notABool
  | unreadableBool
  | notAWhole
  | unreadableWhole
  | fractionalWhole
  | infiniteWhole
  | oversizedWhole
  | notAReal
  | unreadableReal
  | notAText
  | unknownStore (name : String)
  | attempts
  | concurrency
  | delays
  | timeout
  deriving DecidableEq, Repr

def Refused.kind : Refused → String
  | .notABool => "bool_type"
  | .unreadableBool => "bool_parsing"
  | .notAWhole => "int_type"
  | .unreadableWhole => "int_parsing"
  | .fractionalWhole => "int_from_float"
  | .infiniteWhole => "finite_number"
  | .oversizedWhole => "int_parsing_size"
  | .notAReal => "float_type"
  | .unreadableReal => "float_parsing"
  | .notAText => "string_type"
  | _ => "value_error"

def Refused.message : Refused → String
  | .notABool => "Input should be a valid boolean"
  | .unreadableBool => "Input should be a valid boolean, unable to interpret input"
  | .notAWhole => "Input should be a valid integer"
  | .unreadableWhole => "Input should be a valid integer, unable to parse string as an integer"
  | .fractionalWhole => "Input should be a valid integer, got a number with a fractional part"
  | .infiniteWhole => "Input should be a finite number"
  | .oversizedWhole => "Unable to parse input string as an integer, exceeded maximum size"
  | .notAReal => "Input should be a valid number"
  | .unreadableReal => "Input should be a valid number, unable to parse string as a number"
  | .notAText => "Input should be a valid string"
  | .unknownStore name =>
    "Value error, TOKEN_STORE must be one of sql, memory, null (got " ++ Text.quoted name ++ ")."
  | .attempts => "Value error, RESOLVE_MAX_ATTEMPTS must be at least 1."
  | .concurrency => "Value error, RESOLVE_MAX_CONCURRENCY must be at least 1."
  | .delays => "Value error, Resolver delays must not be negative."
  | .timeout => "Value error, REQUEST_TIMEOUT must be positive."

def lowerAscii (s : String) : String := String.ofList (s.toList.map Char.toLower)

def trueWords : List String := ["1", "true", "yes", "on", "t", "y"]

def falseWords : List String := ["0", "false", "no", "off", "f", "n"]

def boolOfText (s : String) : Except Refused Bool :=
  let word := lowerAscii s
  if trueWords.contains word then .ok true
  else if falseWords.contains word then .ok false
  else .error .unreadableBool

def isSmall (n : Int) : Bool := -(pow2 63 : Int) ≤ n && n < (pow2 63 : Int)

/-- A real number as a whole number of at most 64 bits. -/
def wholeOfReal (x : Binary64) : Except Refused Int :=
  match x.truncate? with
  | none => .error .infiniteWhole
  | some n =>
    if !x.isWhole then .error .fractionalWhole
    else if n.natAbs < pow2 63 then .ok n
    else .error .oversizedWhole

def boolOfWhole (n : Int) : Except Refused Bool :=
  if n = 1 then .ok true
  else if n = 0 then .ok false
  else if isSmall n then .error .unreadableBool
  else .error .notABool

def readBool : Json → Except Refused Bool
  | .bool b => .ok b
  | .text s => boolOfText s
  | .number (.whole n) => boolOfWhole n
  | .number (.real x) =>
    match wholeOfReal x with
    | .ok n => boolOfWhole n
    | .error _ => .error .notABool
  | _ => .error .notABool

/-- Digits without the single underscores that may stand between them. -/
def plainDigits (digit : Bool) : List Char → Option (List Char)
  | [] => if digit then some [] else none
  | c :: rest =>
    if c.isDigit then (plainDigits true rest).map (c :: ·)
    else if c = '_' ∧ digit then plainDigits false rest
    else none

/-- The text before a point that only zeros follow. -/
def withoutZeros (cs : List Char) : List Char :=
  match cs.dropWhile (· ≠ '.') with
  | '.' :: zeros => if zeros.all (· = '0') then cs.takeWhile (· ≠ '.') else cs
  | _ => cs

def wholeOfText (s : String) : Except Refused Int :=
  let cs := Text.trim s.toList
  if digitLimit < cs.length then .error .oversizedWhole
  else
    let (negative, cs) := Text.sign cs
    match plainDigits false (withoutZeros cs) with
    | none => .error .unreadableWhole
    | some digits =>
      let size : Int := Nat.ofDigitChars 10 digits 0
      .ok (if negative then -size else size)

def readWhole : Json → Except Refused Int
  | .bool b => .ok (if b then 1 else 0)
  | .number (.whole n) => .ok n
  | .number (.real x) => wholeOfReal x
  | .text s => wholeOfText s
  | _ => .error .notAWhole

/-- A signed exponent behind its mark, or none at the end of the text. -/
def exponent : List Char → Option Int
  | [] => some 0
  | mark :: rest =>
    let (negative, digits) := Text.sign rest
    if (mark = 'e' ∨ mark = 'E') ∧ !digits.isEmpty ∧ digits.all Char.isDigit then
      let size : Int := Nat.ofDigitChars 10 digits 0
      some (if negative then -size else size)
    else none

def unsignedReal (negative : Bool) (cs : List Char) : Option Binary64 :=
  let whole := cs.takeWhile Char.isDigit
  let rest := cs.dropWhile Char.isDigit
  let (decimals, rest) := match rest with
    | '.' :: after => (after.takeWhile Char.isDigit, after.dropWhile Char.isDigit)
    | rest => ([], rest)
  if whole.isEmpty && decimals.isEmpty then none
  else (exponent rest).map fun power =>
    .ofDecimal negative (Nat.ofDigitChars 10 (whole ++ decimals) 0) (power - decimals.length)

/-- A number: a name of a value that is not finite, or a decimal number. -/
def realOfChars (cs : List Char) : Option Binary64 :=
  let (negative, cs) := Text.sign cs
  let word := lowerAscii (String.ofList cs)
  if word = "nan" then some .nan
  else if word = "inf" ∨ word = "infinity" then some (.infinite negative)
  else unsignedReal negative cs

def hasDouble : List Char → Bool
  | '_' :: '_' :: _ => true
  | _ :: rest => hasDouble rest
  | [] => false

def withoutUnderscores (cs : List Char) : Option (List Char) :=
  if !cs.contains '_' || cs.head? = some '_' || cs.getLast? = some '_' || hasDouble cs then none
  else some (cs.filter (· ≠ '_'))

def realOfText (s : String) : Except Refused Binary64 :=
  let cs := Text.trim s.toList
  match realOfChars cs with
  | some x => .ok x
  | none =>
    match (withoutUnderscores cs).bind realOfChars with
    | some x => .ok x
    | none => .error .unreadableReal

def readReal : Json → Except Refused Binary64
  | .bool b => .ok ((Binary64.ofInt? (if b then 1 else 0)).getD .zero)
  | .number n => n.toReal.mapError fun _ => .notAReal
  | .text s => realOfText s
  | _ => .error .notAReal

def readText : Json → Except Refused String
  | .text s => .ok s
  | _ => .error .notAText

def readAddress (v : Json) : Except Refused String := do
  let s ← readText v
  return String.ofList (s.toList.reverse.dropWhile (· = '/')).reverse

inductive StoreKind where
  | table
  | memory
  | discarding
  deriving DecidableEq, Repr

def StoreKind.name : StoreKind → String
  | .table => "sql"
  | .memory => "memory"
  | .discarding => "null"

def readStore (v : Json) : Except Refused StoreKind := do
  let s ← readText v
  let name := Text.lower (String.ofList (Text.strip s.toList))
  match [StoreKind.table, .memory, .discarding].find? fun kind => kind.name = name with
  | some kind => return kind
  | none => .error (.unknownStore name)

end AdminConsole.Settings
