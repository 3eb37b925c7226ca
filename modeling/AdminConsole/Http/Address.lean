import AdminConsole.Http.Path

/-!
The base address of a client. Scheme and host are in lower case, the usual port of a scheme is left
out, dot segments of the path are resolved, and characters that cannot stand in a path are
escaped. A path is shown with a slash behind it.
-/

namespace AdminConsole

structure Address where
  scheme : List Char
  user : List Char
  host : List Char
  port : List Char
  path : List Char
  deriving DecidableEq, Repr

namespace Address

def usualPort (scheme : List Char) : List Char :=
  if scheme = ['h', 't', 't', 'p'] ∨ scheme = ['w', 's'] then ['8', '0']
  else if scheme = ['h', 't', 't', 'p', 's'] ∨ scheme = ['w', 's', 's'] then ['4', '4', '3']
  else if scheme = ['f', 't', 'p'] then ['2', '1']
  else []

/-- The port of an authority without zeros in front; nothing for the usual one. -/
def portOf (scheme cs : List Char) : List Char :=
  let port :=
    if cs.isEmpty || !cs.all Char.isDigit then cs else Nat.toDigits 10 (Nat.ofDigitChars 10 cs 0)
  if port = usualPort scheme then [] else port

def escapedMarks : List Char := ['"', '#', '<', '>', '?', '\x60', '\x7b', '\x7d']

def isPathChar (c : Char) : Bool :=
  0x21 ≤ c.toNat && c.toNat ≤ 0x7E && !escapedMarks.contains c

def escapePath (cs : List Char) : List Char :=
  cs.flatMap fun c => if isPathChar c then [c] else Percent.encodeChar c

def isSchemeChar (c : Char) : Bool := c.isAlphanum || c = '+' || c = '-' || c = '.'

/-- The scheme before the first colon, and what follows it. -/
def splitScheme (cs : List Char) : List Char × List Char :=
  match cs.dropWhile isSchemeChar with
  | ':' :: rest =>
    let scheme := cs.takeWhile isSchemeChar
    if scheme.head?.all Char.isAlpha then (scheme, rest) else ([], cs)
  | _ => ([], cs)

def splitAuthority : List Char → List Char × List Char
  | '/' :: '/' :: rest =>
    let isInside := fun c => c ≠ '/' && c ≠ '?' && c ≠ '#'
    (rest.takeWhile isInside, rest.dropWhile isInside)
  | cs => ([], cs)

/-- The user of an authority with the mark that ends it, and what follows. -/
def splitUser (authority : List Char) : List Char × List Char :=
  if authority.contains '@' then
    let host := (authority.reverse.takeWhile (· ≠ '@')).reverse
    (authority.take (authority.length - host.length), host)
  else ([], authority)

/-- The host of an authority without a user, and what follows the colon behind it. -/
def splitHost (cs : List Char) : List Char × List Char :=
  match cs with
  | '[' :: _ => (cs.takeWhile (· ≠ ']') ++ [']'], ((cs.dropWhile (· ≠ ']')).drop 1).drop 1)
  | _ => (cs.takeWhile (· ≠ ':'), (cs.dropWhile (· ≠ ':')).drop 1)

def read (address : String) : Address :=
  let (scheme, rest) := splitScheme address.toList
  let (authority, rest) := splitAuthority rest
  let (user, place) := splitUser authority
  let (host, port) := splitHost place
  let path := rest.takeWhile fun c => c ≠ '?' && c ≠ '#'
  { scheme := scheme.map Char.toLower
    user
    host := host.map Char.toLower
    port := portOf scheme port
    path := escapePath (Path.normal path) }

def shown (a : Address) : String :=
  let scheme := if a.scheme.isEmpty then [] else a.scheme ++ [':']
  let authority := a.user ++ a.host ++ if a.port.isEmpty then [] else ':' :: a.port
  let authority := if authority.isEmpty then [] else '/' :: '/' :: authority
  let path := if a.path.isEmpty then [] else Path.closed a.path
  String.ofList (scheme ++ authority ++ path)

end Address

end AdminConsole
