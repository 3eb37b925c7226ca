import AdminConsole.Text.Units
import AdminConsole.Text.Utf8

/-!
Encoded text. A byte order mark tells the encoding; without one it follows from the bytes that are
zero at the beginning, since text such as JSON begins with characters of ASCII. What is read are the
numbers of characters, among which halves of surrogate pairs pass that stand alone.
-/

namespace AdminConsole.Text

inductive Encoding where
  | utf8
  | utf16 (big : Bool)
  | utf32 (big : Bool)
  deriving DecidableEq, Repr

namespace Encoding

def name : Encoding → String
  | .utf8 => "utf-8"
  | .utf16 big => if big then "utf-16-be" else "utf-16-le"
  | .utf32 big => if big then "utf-32-be" else "utf-32-le"

/-- The encoding of bytes that begin without a mark. -/
def unmarked : List UInt8 → Encoding
  | a :: b :: c :: d :: _ =>
    if a = 0 then if b = 0 then .utf32 true else .utf16 true
    else if b = 0 then if c = 0 ∧ d = 0 then .utf32 false else .utf16 false
    else .utf8
  | [a, b] => if a = 0 then .utf16 true else if b = 0 then .utf16 false else .utf8
  | _ => .utf8

/-- The byte order marks, those of four bytes before the ones they begin with. -/
def marks : List (List UInt8 × Encoding) :=
  [([0x00, 0x00, 0xFE, 0xFF], .utf32 true), ([0xFF, 0xFE, 0x00, 0x00], .utf32 false),
    ([0xFE, 0xFF], .utf16 true), ([0xFF, 0xFE], .utf16 false), ([0xEF, 0xBB, 0xBF], .utf8)]

/-- The encoding, and the mark that tells it. -/
def detect (bytes : List UInt8) : Encoding × List UInt8 :=
  match marks.find? fun entry => entry.1.isPrefixOf bytes with
  | some (mark, encoding) => (encoding, mark)
  | none => (unmarked bytes, [])

inductive Reason where
  | utf8 (reason : Utf8.Reason)
  | truncated
  | range
  deriving DecidableEq, Repr

def Reason.message : Reason → String
  | .utf8 reason => reason.message
  | .truncated => "truncated data"
  | .range => "code point not in range(0x110000)"

structure Error where
  encoding : Encoding
  position : Nat
  bytes : List UInt8
  reason : Reason
  deriving DecidableEq, Repr

def Error.message (e : Error) : String :=
  Utf8.undecodable e.encoding.name e.position e.bytes e.reason.message

/-- The number that bytes stand for, the most significant one first or last. -/
def number (big : Bool) (bytes : List UInt8) : Nat :=
  (if big then bytes else bytes.reverse).foldl (fun n b => n * 0x100 + b.toNat) 0

/-- The units of UTF-16, counting bytes from `position`. -/
def units (big : Bool) (position : Nat) : List UInt8 → Except Error (List Nat)
  | a :: b :: rest => (number big [a, b] :: ·) <$> units big (position + 2) rest
  | [] => .ok []
  | left => .error ⟨.utf16 big, position, left, .truncated⟩

/-- The numbers of UTF-32, counting bytes from `position`. -/
def numbers (big : Bool) (position : Nat) : List UInt8 → Except Error (List Nat)
  | a :: b :: c :: d :: rest =>
    let n := number big [a, b, c, d]
    if n < 0x110000 then (n :: ·) <$> numbers big (position + 4) rest
    else .error ⟨.utf32 big, position, [a, b, c, d], .range⟩
  | [] => .ok []
  | left => .error ⟨.utf32 big, position, left, .truncated⟩

/-- The numbers of the characters, and of halves of pairs that stand alone. Positions are counted
behind the mark of UTF-8, and from the mark on in the other encodings. -/
def decode (bytes : List UInt8) : Except Error (List Nat) :=
  let (encoding, mark) := detect bytes
  let rest := bytes.drop mark.length
  match encoding with
  | .utf8 =>
    (Utf8.numbers 0 (Utf8.items none rest)).mapError fun e =>
      ⟨.utf8, e.position, e.bytes, .utf8 e.reason⟩
  | .utf16 big => joinUnits <$> units big mark.length rest
  | .utf32 big => numbers big mark.length rest

end Encoding

end AdminConsole.Text
