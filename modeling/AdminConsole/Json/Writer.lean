import AdminConsole.Json.Value

/-!
JSON text of a value. A layout says what stands between items and names, whether characters beyond
ASCII are escaped, and how deep a nested line is indented.
-/

namespace AdminConsole.Json

structure Layout where
  comma : List Char
  colon : List Char
  asciiOnly : Bool
  indent : Option Nat

/-- No spaces, ASCII only: the layout of stored entries. -/
def Layout.compact : Layout := ⟨[','], [':'], true, none⟩

def Layout.spaced : Layout := ⟨[',', ' '], [':', ' '], false, none⟩

def Layout.indented : Layout := ⟨[','], [':', ' '], false, some 2⟩

def Layout.gap (layout : Layout) (depth : Nat) : List Char :=
  match layout.indent with
  | none => []
  | some width => '\n' :: List.replicate (width * depth) ' '

def unitEscape (c : Char) : List Char :=
  let n := c.toNat
  if n < 0x10000 then '\\' :: 'u' :: Text.hex 4 n
  else
    let high := 0xD800 + (n - 0x10000) / 0x400
    let low := 0xDC00 + (n - 0x10000) % 0x400
    '\\' :: 'u' :: Text.hex 4 high ++ '\\' :: 'u' :: Text.hex 4 low

def escapeChar (asciiOnly : Bool) (c : Char) : List Char :=
  if c = '"' then ['\\', '"']
  else if c = '\\' then ['\\', '\\']
  else if c = '\n' then ['\\', 'n']
  else if c = '\r' then ['\\', 'r']
  else if c = '\t' then ['\\', 't']
  else if c.toNat = 8 then ['\\', 'b']
  else if c.toNat = 12 then ['\\', 'f']
  else if c.toNat < 32 then unitEscape c
  else if asciiOnly && 127 ≤ c.toNat then unitEscape c
  else [c]

def writeText (asciiOnly : Bool) (s : String) : List Char :=
  '"' :: s.toList.flatMap (escapeChar asciiOnly) ++ ['"']

/-- A number; the three values that are not finite have names. -/
def writeNumber : Number → List Char
  | .whole n => if n < 0 then '-' :: Nat.toDigits 10 n.natAbs else Nat.toDigits 10 n.natAbs
  | .real .nan => "NaN".toList
  | .real (.infinite negative) => (if negative then "-Infinity" else "Infinity").toList
  | .real (.finite negative rank _) => Binary64.finiteText negative rank

mutual

def writeAt (layout : Layout) (depth : Nat) : Json → List Char
  | .null => "null".toList
  | .bool b => (if b then "true" else "false").toList
  | .number n => writeNumber n
  | .text s => writeText layout.asciiOnly s
  | .list [] => ['[', ']']
  | .list (item :: rest) =>
    '[' :: layout.gap (depth + 1) ++ writeAt layout (depth + 1) item ++
      writeItems layout (depth + 1) rest ++ layout.gap depth ++ [']']
  | .object [] => ['\x7b', '\x7d']
  | .object ((name, value) :: rest) =>
    '\x7b' :: layout.gap (depth + 1) ++ writeText layout.asciiOnly name ++ layout.colon ++
      writeAt layout (depth + 1) value ++
      writeEntries layout (depth + 1) rest ++ layout.gap depth ++ ['\x7d']

/-- The items after the first. -/
def writeItems (layout : Layout) (depth : Nat) : List Json → List Char
  | [] => []
  | item :: rest =>
    layout.comma ++ layout.gap depth ++ writeAt layout depth item ++ writeItems layout depth rest

/-- The entries after the first. -/
def writeEntries (layout : Layout) (depth : Nat) : List (String × Json) → List Char
  | [] => []
  | (name, value) :: rest =>
    layout.comma ++ layout.gap depth ++ writeText layout.asciiOnly name ++ layout.colon ++
      writeAt layout depth value ++ writeEntries layout depth rest

end

def write (layout : Layout) (value : Json) : List Char := writeAt layout 0 value

mutual

/-- Whether every whole number in the value is short enough to be written. -/
def withinDigits : Json → Bool
  | .number (.whole n) => (Nat.toDigits 10 n.natAbs).length ≤ digitLimit
  | .list items => withinDigitsItems items
  | .object entries => withinDigitsEntries entries
  | _ => true

def withinDigitsItems : List Json → Bool
  | [] => true
  | item :: rest => withinDigits item && withinDigitsItems rest

def withinDigitsEntries : List (String × Json) → Bool
  | [] => true
  | (_, value) :: rest => withinDigits value && withinDigitsEntries rest

end

def write? (layout : Layout) (value : Json) : Except NumberError (List Char) :=
  if value.withinDigits then .ok (value.write layout) else .error .tooManyDigitsToWrite

end AdminConsole.Json
