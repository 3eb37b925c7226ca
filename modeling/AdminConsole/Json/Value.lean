import AdminConsole.Entries
import AdminConsole.Number.Basic
import AdminConsole.Text.Quoted

/-!
JSON values. Whole and binary64 numbers are kept apart, and an object keeps the order of its
entries. The display text of a value is what messages and text parameters show.
-/

namespace AdminConsole

inductive Json where
  | null
  | bool (b : Bool)
  | number (n : Number)
  | text (s : String)
  | list (items : List Json)
  | object (entries : List (String × Json))
  deriving Repr

namespace Json

def kindName : Json → String
  | .null => "NoneType"
  | .bool _ => "bool"
  | .number (.whole _) => "int"
  | .number (.real _) => "float"
  | .text _ => "str"
  | .list _ => "list"
  | .object _ => "dict"

def isNull : Json → Bool
  | .null => true
  | _ => false

/-- A value counts as present unless it is null, false, zero or empty. -/
def isPresent : Json → Bool
  | .null => false
  | .bool b => b
  | .number n => !n.isZero
  | .text s => s ≠ ""
  | .list items => !items.isEmpty
  | .object entries => !entries.isEmpty

mutual

/-- The display text of a value: quoted strings, `None`, `True` and `False`. -/
def display : Json → String
  | .null => "None"
  | .bool b => if b then "True" else "False"
  | .number n => n.text
  | .text s => Text.quoted s
  | .list items => "[" ++ ", ".intercalate (displayItems items) ++ "]"
  | .object entries => "\x7b" ++ ", ".intercalate (displayEntries entries) ++ "\x7d"

def displayItems : List Json → List String
  | [] => []
  | item :: rest => display item :: displayItems rest

def displayEntries : List (String × Json) → List String
  | [] => []
  | (name, value) :: rest => (Text.quoted name ++ ": " ++ display value) :: displayEntries rest

end

/-- The plain text of a value: a string is its own text. -/
def plain : Json → String
  | .text s => s
  | value => value.display

def entries? : Json → Option (Entries Json)
  | .object entries => some entries
  | _ => none

def field (name : String) (entries : Entries Json) : Json :=
  (Entries.get? name entries).getD .null

end Json

end AdminConsole
