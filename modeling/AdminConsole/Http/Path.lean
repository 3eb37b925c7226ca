import AdminConsole.Entry.Percent

/-!
Paths of requests. A reference is laid behind the path of the base address; a query or fragment
in it is dropped, a leading host is dropped, dot segments are resolved, and percent escapes are
decoded.
-/

namespace AdminConsole.Path

def stripChar (c : Char) (cs : List Char) : List Char :=
  ((cs.dropWhile (· = c)).reverse.dropWhile (· = c)).reverse

def splitAt (c : Char) : List Char → List (List Char)
  | [] => [[]]
  | d :: rest =>
    if d = c then [] :: splitAt c rest
    else match splitAt c rest with
      | part :: parts => (d :: part) :: parts
      | [] => [[d]]

/-- The segments after `.` is left out and `..` has taken back the segment before it; the parts so
far are in reverse. -/
def resolveDots (sofar : List (List Char)) : List (List Char) → List (List Char)
  | [] => sofar.reverse
  | part :: rest =>
    if part = ['.'] then resolveDots sofar rest
    else if part = ['.', '.'] then
      match sofar with
      | [] => resolveDots [] rest
      | [[]] => resolveDots [[]] rest
      | _ :: before => resolveDots before rest
    else resolveDots (part :: sofar) rest

def join : List (List Char) → List Char
  | [] => []
  | [part] => part
  | part :: rest => part ++ '/' :: join rest

def ofReference (reference : List Char) : List Char :=
  let path := reference.takeWhile fun c => c ≠ '?' && c ≠ '#'
  match path with
  | '/' :: '/' :: rest => rest.dropWhile (· ≠ '/')
  | path => path

def normal (path : List Char) : List Char :=
  let parts := splitAt '/' path
  if parts.contains ['.'] || parts.contains ['.', '.'] then join (resolveDots [] parts) else path

def closed (path : List Char) : List Char :=
  if path.getLast? = some '/' then path else path ++ ['/']

def behind (base : List Char) (reference : String) : String :=
  let path := closed base ++ (ofReference reference.toList).dropWhile (· = '/')
  String.ofList (Percent.decode (normal path))

end AdminConsole.Path
