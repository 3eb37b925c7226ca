import AdminConsole.Json.Value
import AdminConsole.Text.Digit
import AdminConsole.Text.Units

/-!
Reading JSON text. Besides the standard grammar the reader knows the three numbers that are not
finite; the last of several entries with one name wins and keeps the first place. An error says
how many characters were left at the fault, from which the position in the text follows.
-/

namespace AdminConsole.Json

inductive Expected where
  | value
  | name
  | colon
  | comma
  | endOfText
  | closingQuote
  | plainCharacter
  | escape
  | unicodeEscape
  | noByteOrderMark
  deriving DecidableEq, Repr

inductive ReadError where
  | unexpected (expected : Expected) (left : Nat)
  | tooManyDigits (count : Nat)
  deriving DecidableEq, Repr

def Expected.message : Expected → String
  | .value => "Expecting value"
  | .name => "Expecting property name enclosed in double quotes"
  | .colon => "Expecting ':' delimiter"
  | .comma => "Expecting ',' delimiter"
  | .endOfText => "Extra data"
  | .closingQuote => "Unterminated string starting at"
  | .plainCharacter => "Invalid control character at"
  | .escape => "Invalid \\escape"
  | .unicodeEscape => "Invalid \\uXXXX escape"
  | .noByteOrderMark => "Unexpected UTF-8 BOM (decode using utf-8-sig)"

/-- The error with its line, column and character number in the text that was read. -/
def ReadError.messageIn (text : List Char) : ReadError → String
  | .tooManyDigits count => (NumberError.tooManyDigitsToRead count).message
  | .unexpected expected left =>
    let position := text.length - left
    let before := text.take position
    let line := before.count '\n' + 1
    let column := (before.reverse.takeWhile (· ≠ '\n')).length + 1
    expected.message ++ ": line " ++ toString line ++ " column " ++ toString column ++
      " (char " ++ toString position ++ ")"

def fail {α : Type} (expected : Expected) (place : List Char) : Except ReadError α :=
  .error (.unexpected expected place.length)

def isSpace (c : Char) : Bool := c = ' ' || c = '\t' || c = '\n' || c = '\r'

def skipSpace (cs : List Char) : List Char := cs.dropWhile isSpace

/-- The whole part of a number: zero, or digits that do not begin with one. -/
def wholeDigits : List Char → Option (List Char × List Char)
  | '0' :: rest => some (['0'], rest)
  | cs =>
    match cs.takeWhile Char.isDigit with
    | [] => none
    | digits => some (digits, cs.dropWhile Char.isDigit)

/-- The digits after a point, if a point and a digit come next. -/
def fraction : List Char → List Char × List Char
  | '.' :: rest =>
    match rest.takeWhile Char.isDigit with
    | [] => ([], '.' :: rest)
    | digits => (digits, rest.dropWhile Char.isDigit)
  | cs => ([], cs)

/-- An exponent, if its mark, an optional sign and a digit come next. -/
def exponent (cs : List Char) : Option Int × List Char :=
  match cs with
  | mark :: rest =>
    if mark = 'e' ∨ mark = 'E' then
      let (negative, after) := Text.sign rest
      match after.takeWhile Char.isDigit with
      | [] => (none, cs)
      | digits =>
        let size : Int := Nat.ofDigitChars 10 digits 0
        (some (if negative then -size else size), after.dropWhile Char.isDigit)
    else (none, cs)
  | [] => (none, cs)

/-- A number without its minus sign; `start` is the text from the sign on. -/
def readUnsigned (start : List Char) (negative : Bool) (cs : List Char) :
    Except ReadError (Number × List Char) :=
  match wholeDigits cs with
  | none => fail .value start
  | some (digits, rest) =>
    let (decimals, rest) := fraction rest
    let (power, rest) := exponent rest
    if decimals.isEmpty && power.isNone then
      if digitLimit < digits.length then .error (.tooManyDigits digits.length)
      else
        let size : Int := Nat.ofDigitChars 10 digits 0
        .ok (.whole (if negative then -size else size), rest)
    else
      let size := Nat.ofDigitChars 10 (digits ++ decimals) 0
      .ok (.real (.ofDecimal negative size (power.getD 0 - decimals.length)), rest)

def readNumber : List Char → Except ReadError (Number × List Char)
  | '-' :: rest => readUnsigned ('-' :: rest) true rest
  | cs => readUnsigned cs false cs

def simpleEscape? (c : Char) : Option Char :=
  if c = '"' ∨ c = '\\' ∨ c = '/' then some c
  else if c = 'b' then some (Char.ofNat 8)
  else if c = 'f' then some (Char.ofNat 12)
  else if c = 'n' then some '\n'
  else if c = 'r' then some '\r'
  else if c = 't' then some '\t'
  else none

/-- The UTF-16 unit of a unicode escape, from behind its letter. More than four characters have to
follow the letter, since the string has to be closed. -/
def readUnit (letter : Char) (cs : List Char) : Except ReadError (Nat × List Char) :=
  match cs with
  | a :: b :: c :: d :: rest =>
    match Text.hex4? a b c d with
    | some unit => if rest.isEmpty then fail .unicodeEscape (letter :: cs) else .ok (unit, rest)
    | none => fail .unicodeEscape (letter :: cs)
  | _ => fail .unicodeEscape (letter :: cs)

/-- A unicode escape, which may be two escapes that form a pair. Half a pair is read as U+FFFD. -/
def readUnicode (letter : Char) (cs : List Char) : Except ReadError (Char × List Char) := do
  let (unit, rest) ← readUnit letter cs
  match rest with
  | '\\' :: 'u' :: a :: b :: c :: d :: after =>
    if Text.isHighUnit unit && !after.isEmpty then
      let (low, after) ← readUnit 'u' (a :: b :: c :: d :: after)
      if Text.isLowUnit low then
        return (Char.ofNat (Text.joined unit low), after)
      else return (Text.unitChar unit, rest)
    else return (Text.unitChar unit, rest)
  | _ => return (Text.unitChar unit, rest)

/-- The next character of a string, or none at its closing quote; `opened` counts the characters
left at the opening quote. -/
def readChar (opened : Nat) : List Char → Except ReadError (Option Char × List Char)
  | [] => .error (.unexpected .closingQuote opened)
  | '"' :: rest => .ok (none, rest)
  | '\\' :: rest =>
    match rest with
    | [] => .error (.unexpected .closingQuote opened)
    | letter :: after =>
      if letter = 'u' then do
        let (c, after) ← readUnicode letter after
        return (some c, after)
      else match simpleEscape? letter with
        | some c => .ok (some c, after)
        | none => fail .escape ('\\' :: rest)
  | c :: rest => if c.toNat < 32 then fail .plainCharacter (c :: rest) else .ok (some c, rest)

def readChars (opened : Nat) : Nat → List Char → Except ReadError (List Char × List Char)
  | 0, _ => .error (.unexpected .closingQuote opened)
  | fuel + 1, cs => do
    match ← readChar opened cs with
    | (none, rest) => return ([], rest)
    | (some c, rest) =>
      let (more, rest) ← readChars opened fuel rest
      return (c :: more, rest)

def readString (cs : List Char) : Except ReadError (String × List Char) := do
  let (chars, rest) ← readChars (cs.length + 1) (cs.length + 1) cs
  return (String.ofList chars, rest)

def words : List (List Char × Json) :=
  [("null".toList, .null), ("true".toList, .bool true), ("false".toList, .bool false),
    ("NaN".toList, .number (.real .nan)),
    ("Infinity".toList, .number (.real (.infinite false))),
    ("-Infinity".toList, .number (.real (.infinite true)))]

def readWord? (cs : List Char) : Option (Json × List Char) :=
  (words.find? fun entry => entry.1.isPrefixOf cs).map fun entry =>
    (entry.2, cs.drop entry.1.length)

mutual

/-- A value that begins with the first character. -/
def readValue : Nat → List Char → Except ReadError (Json × List Char)
  | 0, cs => fail .value cs
  | fuel + 1, cs =>
    match cs with
    | '"' :: rest => do
      let (s, rest) ← readString rest
      return (.text s, rest)
    | '[' :: rest =>
      match skipSpace rest with
      | ']' :: rest => .ok (.list [], rest)
      | rest => do
        let (items, rest) ← readItems fuel rest
        return (.list items, rest)
    | '\x7b' :: rest =>
      match skipSpace rest with
      | '\x7d' :: rest => .ok (.object [], rest)
      | rest => do
        let (entries, rest) ← readEntries fuel [] rest
        return (.object entries, rest)
    | _ =>
      match readWord? cs with
      | some found => .ok found
      | none => do
        let (n, rest) ← readNumber cs
        return (.number n, rest)

def readItems : Nat → List Char → Except ReadError (List Json × List Char)
  | 0, cs => fail .value cs
  | fuel + 1, cs => do
    let (item, rest) ← readValue fuel cs
    match skipSpace rest with
    | ']' :: rest => return ([item], rest)
    | ',' :: rest =>
      let (items, rest) ← readItems fuel (skipSpace rest)
      return (item :: items, rest)
    | rest => fail .comma rest

/-- The entries of an object up to its closing brace, written over the ones read so far. -/
def readEntries :
    Nat → Entries Json → List Char → Except ReadError (List (String × Json) × List Char)
  | 0, _, cs => fail .name cs
  | fuel + 1, sofar, cs =>
    match cs with
    | '"' :: rest => do
      let (name, rest) ← readString rest
      match skipSpace rest with
      | ':' :: rest =>
        let (value, rest) ← readValue fuel (skipSpace rest)
        let sofar := Entries.put name value sofar
        match skipSpace rest with
        | '\x7d' :: rest => return (sofar, rest)
        | ',' :: rest => readEntries fuel sofar (skipSpace rest)
        | rest => fail .comma rest
      | rest => fail .colon rest
    | _ => fail .name cs

end

/-- As much fuel as a text may need: a bracket takes two units, one for the list and one for its first
item. -/
def fuelFor (cs : List Char) : Nat := 2 * cs.length + 1

def read (cs : List Char) : Except ReadError Json :=
  match cs with
  | '\uFEFF' :: _ => fail .noByteOrderMark cs
  | _ => do
    let (value, rest) ← readValue (fuelFor cs) (skipSpace cs)
    match skipSpace rest with
    | [] => return value
    | rest => fail .endOfText rest

def readText (s : String) : Except ReadError Json := read s.toList

end AdminConsole.Json
