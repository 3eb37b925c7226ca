import AdminConsole.Text.Utf8

/-!
Percent encoding. Letters, digits and four marks stand for themselves; every other character is
written by its UTF-8 bytes. A percent sign without two hexadecimal digits stands for itself, and
bytes that are no UTF-8 are read as U+FFFD.
-/

namespace AdminConsole.Percent

/-- The characters that are never escaped. -/
def isUnreserved (c : Char) : Bool :=
  c.isAlphanum || c = '_' || c = '.' || c = '-' || c = '~'

def escapeByte (b : UInt8) : List Char :=
  ['%', Text.hexDigitUpper (b.toNat / 16), Text.hexDigitUpper (b.toNat % 16)]

def encodeChar (c : Char) : List Char :=
  if isUnreserved c then [c] else (Text.Utf8.encodeChar c).flatMap escapeByte

def encode (cs : List Char) : List Char := cs.flatMap encodeChar

def bytes : List Char → List UInt8
  | '%' :: high :: low :: rest =>
    match Text.hexValue? high, Text.hexValue? low with
    | some h, some l => UInt8.ofNat (h * 16 + l) :: bytes rest
    | _, _ => 0x25 :: bytes (high :: low :: rest)
  | c :: rest => Text.Utf8.encodeChar c ++ bytes rest
  | [] => []

def decode (cs : List Char) : List Char := Text.Utf8.decodeLossy (bytes cs)

end AdminConsole.Percent
