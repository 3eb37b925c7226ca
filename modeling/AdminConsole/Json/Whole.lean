import AdminConsole.Json.Value
import AdminConsole.Text.Blank
import AdminConsole.Text.Digit

/-!
Reading a JSON value as a whole number. Numbers are cut toward zero, truth values count as one and
zero, and text holds an optional sign and digits of any script, single underscores between them.
-/

namespace AdminConsole

inductive WholeError where
  | number (cause : NumberError)
  | text (s : String)
  | kind (name : String)
  deriving DecidableEq, Repr

def WholeError.message : WholeError → String
  | .number cause => cause.message
  | .text s =>
    "invalid literal for int() with base 10: " ++
      String.ofList ((Text.quotedChars s.toList).take 200)
  | .kind name =>
    "int() argument must be a string, a bytes-like object or a real number, not '" ++ name ++ "'"

namespace Whole

/-- Digits with single underscores between them: their values, and what follows. `digit` says
whether the last character was a digit. -/
def digits (digit : Bool) : List Char → Option (List Nat × List Char)
  | [] => if digit then some ([], []) else none
  | c :: rest =>
    match Text.digitValue? c with
    | some d => (digits true rest).map fun (ds, after) => (d :: ds, after)
    | none =>
      if c = '_' then (if digit then digits false rest else none)
      else if digit then some ([], c :: rest) else none

def ofDigits (ds : List Nat) : Nat := ds.foldl (fun n d => n * 10 + d) 0

def ofText (s : String) : Except WholeError Int :=
  let (negative, cs) := Text.sign (Text.trim s.toList)
  match digits false cs with
  | none => .error (.text s)
  | some (ds, rest) =>
    if digitLimit < ds.length then .error (.number (.tooManyDigitsToRead ds.length))
    else if rest.isEmpty then
      let size : Int := ofDigits ds
      .ok (if negative then -size else size)
    else .error (.text s)

end Whole

def Json.toWhole : Json → Except WholeError Int
  | .bool b => .ok (if b then 1 else 0)
  | .number n => n.truncate.mapError .number
  | .text s => Whole.ofText s
  | value => .error (.kind value.kindName)

end AdminConsole
