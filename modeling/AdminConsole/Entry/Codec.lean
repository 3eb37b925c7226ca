import AdminConsole.Entry.Base64
import AdminConsole.Entry.Percent
import AdminConsole.Json.Reader
import AdminConsole.Json.Writer
import AdminConsole.Text.Blank

/-!
Stored entries. An entry is compact JSON text, either plain or percent-encoded inside base64. The
first character tells the two forms apart: plain entries are objects or lists.
-/

namespace AdminConsole

inductive EntryError where
  | empty
  | base64 (cause : Base64.Error)
  | notAscii (position : Nat) (byte : UInt8)
  | json (expected : Json.Expected)
  deriving DecidableEq, Repr

/-- Why reading an entry stops: a malformed entry, or a number that is too long to be read. -/
inductive EntryFault where
  | malformed (cause : EntryError)
  | number (cause : NumberError)
  deriving DecidableEq, Repr

def EntryError.message : EntryError → String
  | .empty => "empty entry"
  | .base64 cause => "entry is not valid base64: " ++ cause.message
  | .notAscii position byte =>
    "entry is not valid base64: 'ascii' codec can't decode byte 0x" ++
      String.ofList (Text.hex 2 byte.toNat) ++ " in position " ++ toString position ++
      ": ordinal not in range(128)"
  | .json expected => "entry is not valid JSON: " ++ expected.message

namespace Entry

/-- ASCII bytes as characters, counting from `position`. -/
def asciiChars (position : Nat) : List UInt8 → Except EntryError (List Char)
  | [] => .ok []
  | b :: rest =>
    if b.toNat < 128 then (Char.ofNat b.toNat :: ·) <$> asciiChars (position + 1) rest
    else .error (.notAscii position b)

def unwrap (cs : List Char) : Except EntryError (List Char) :=
  match Base64.decode cs with
  | .error cause => .error (.base64 cause)
  | .ok bytes => Percent.decode <$> asciiChars 0 bytes

def wrap (cs : List Char) : List Char :=
  Base64.encode (Text.Utf8.encode (Percent.encode cs))

def encode (wrapped : Bool) (payload : Json) : Except NumberError String := do
  let text ← payload.write? .compact
  return String.ofList (if wrapped then wrap text else text)

def isPlain : List Char → Bool
  | '\x7b' :: _ => true
  | '[' :: _ => true
  | _ => false

def textOf (cs : List Char) : Except EntryError (List Char) :=
  if cs.isEmpty then .error .empty
  else if isPlain cs then .ok cs
  else unwrap cs

def decode (entry : String) : Except EntryFault Json :=
  match textOf (Text.strip entry.toList) with
  | .error cause => .error (.malformed cause)
  | .ok text =>
    match Json.read text with
    | .ok value => .ok value
    | .error (.unexpected expected _) => .error (.malformed (.json expected))
    | .error (.tooManyDigits count) => .error (.number (.tooManyDigitsToRead count))

end Entry

end AdminConsole
