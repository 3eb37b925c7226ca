import AdminConsole.Json.Writer
import AdminConsole.Tree.View

/-!
Text and JSON of a view. Colour is a matter of escape sequences around the same text: a style
either has them all or none.
-/

namespace AdminConsole

structure Style where
  reset : String
  bold : String
  dim : String
  red : String
  deriving DecidableEq, Repr

namespace Style

def plain : Style := ⟨"", "", "", ""⟩

def colored : Style := ⟨"\x1b[0m", "\x1b[1m", "\x1b[2m", "\x1b[91m"⟩

/-- What decides about colour: the two environment variables, the terminal, and whether colour was
disabled. -/
structure Setting where
  noColor : Option String
  forceColor : Option String
  terminal : Bool
  disabled : Bool

def isSet (value : Option String) : Bool := value.getD "" ≠ ""

/-- Disabling goes before the environment, which goes before the terminal. -/
def Setting.isColored (s : Setting) : Bool :=
  if s.disabled then false
  else if isSet s.noColor then false
  else if isSet s.forceColor then true
  else s.terminal

def ofSetting (s : Setting) : Style := if s.isColored then colored else plain

def isParameter (c : Char) : Bool := ('0' ≤ c && c ≤ '9') || c = ';'

/-- What follows an escape sequence, if the text begins with one: an escape character, a bracket,
digits and semicolons, and the letter m. -/
def afterEscape? : List Char → Option (List Char)
  | '\x1b' :: '[' :: rest =>
    match rest.dropWhile isParameter with
    | 'm' :: after => some after
    | _ => none
  | _ => none

/-- Takes the escape sequences out in one pass from left to right. -/
def stripFrom : Nat → List Char → List Char
  | 0, cs => cs
  | _ + 1, [] => []
  | fuel + 1, c :: rest =>
    match afterEscape? (c :: rest) with
    | some after => stripFrom fuel after
    | none => c :: stripFrom fuel rest

def strip (s : String) : String := String.ofList (stripFrom s.toList.length s.toList)

end Style

namespace View

/-- The name that a row shows: its key, if it has no name. -/
def label (row : Node) : String :=
  if row.record.name.isPresent then row.record.name.plain else row.key

def marker (row : Node) : String :=
  if row.hasChildren then (if row.expanded then "▾ " else "▸ ") else "  "

def line (style : Style) (indent : Int) (row : Node) : String :=
  let pad := String.ofList (List.replicate (indent * row.level).toNat ' ')
  let name := label row
  let name := if row.level = 0 then style.bold ++ name ++ style.reset else name
  let path :=
    if row.record.path.isPresent then
      "  " ++ style.dim ++ row.record.path.plain ++ style.reset
    else ""
  "  " ++ pad ++ marker row ++ name ++ " " ++ style.dim ++ "[" ++ row.key ++ "]" ++ style.reset ++
    path

def renderRows (style : Style) (rows : List Node) (indent : Int) : String :=
  "\n".intercalate ((Node.visible rows).map (line style indent))

def width : Nat := 68

def bar : String := String.ofList (List.replicate width '═')

def failureLine (style : Style) (failure : String × String) : String :=
  "  " ++ style.red ++ "[!] children of " ++ failure.1 ++ " unavailable: " ++ failure.2 ++
    style.reset

/-- The whole view between bars, with a line for each code that failed. -/
def render (style : Style) (v : View) : String :=
  let rows := v.allRows
  let head := [
    "\n" ++ style.bold ++ bar ++ style.reset,
    "  " ++ style.bold ++ toString v.roots.length ++ " root(s), " ++ toString rows.length ++
      " record(s)" ++ style.reset,
    style.bold ++ bar ++ style.reset]
  let body := if rows.isEmpty then [] else [renderRows style rows 2]
  let failures := v.report.sortedFailures.map (failureLine style)
  let lines := head ++ body ++ failures ++ [bar ++ "\n"]
  String.join (lines.map (· ++ "\n"))

def json (v : View) : String :=
  String.ofList ((Json.list (Node.listJson v.roots)).write .indented)

def flatJson (v : View) : String :=
  String.ofList ((Json.list (v.allRows.map Node.toRowJson)).write .indented)

end View

end AdminConsole
