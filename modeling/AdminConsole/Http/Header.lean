import AdminConsole.Entry.Base64
import AdminConsole.Text.Utf8

/-!
Values of the Authorization header. A header value holds ASCII characters only.
-/

namespace AdminConsole.Header

/-- Basic credentials: base64 of the two parts joined by a colon. -/
def basic (username password : String) : String :=
  "Basic " ++ String.ofList
    (Base64.encode (Text.Utf8.encode (username.toList ++ ':' :: password.toList)))

def bearer (token : String) : String := "Bearer " ++ token

def isBasic (value : String) : Bool := "Basic ".toList.isPrefixOf value.toList

/-- The first run of characters that a header value cannot hold. -/
structure Unencodable where
  position : Nat
  run : List Char
  deriving DecidableEq, Repr

def isAscii (c : Char) : Bool := c.toNat < 128

def unencodable? (value : String) : Option Unencodable :=
  let ascii := value.toList.takeWhile isAscii
  match (value.toList.dropWhile isAscii).takeWhile fun c => !isAscii c with
  | [] => none
  | run => some ⟨ascii.length, run⟩

def pointEscape (c : Char) : List Char :=
  if c.toNat < 0x100 then '\\' :: 'x' :: Text.hex 2 c.toNat
  else if c.toNat < 0x10000 then '\\' :: 'u' :: Text.hex 4 c.toNat
  else '\\' :: 'U' :: Text.hex 8 c.toNat

def Unencodable.message (u : Unencodable) : String :=
  match u.run with
  | [c] =>
    "'ascii' codec can't encode character '" ++ String.ofList (pointEscape c) ++
      "' in position " ++ toString u.position ++ ": ordinal not in range(128)"
  | _ =>
    "'ascii' codec can't encode characters in position " ++ toString u.position ++ "-" ++
      toString (u.position + u.run.length - 1) ++ ": ordinal not in range(128)"

end AdminConsole.Header
