import AdminConsole.Text.Hex

/-!
UTF-8. A byte sequence is read as a sequence of characters and defects; a defect is the longest
start of a character that the next byte rules out. Strict reading stops at the first defect,
lossy reading writes U+FFFD for each.
-/

namespace AdminConsole.Text.Utf8

def encodeChar (c : Char) : List UInt8 :=
  let n := c.toNat
  if n < 0x80 then [UInt8.ofNat n]
  else if n < 0x800 then [UInt8.ofNat (0xC0 + n / 0x40), UInt8.ofNat (0x80 + n % 0x40)]
  else if n < 0x10000 then
    [UInt8.ofNat (0xE0 + n / 0x1000), UInt8.ofNat (0x80 + n / 0x40 % 0x40),
      UInt8.ofNat (0x80 + n % 0x40)]
  else
    [UInt8.ofNat (0xF0 + n / 0x40000), UInt8.ofNat (0x80 + n / 0x1000 % 0x40),
      UInt8.ofNat (0x80 + n / 0x40 % 0x40), UInt8.ofNat (0x80 + n % 0x40)]

def encode (cs : List Char) : List UInt8 := cs.flatMap encodeChar

inductive Reason where
  | startByte
  | continuation
  | endOfData
  deriving DecidableEq, Repr

inductive Item where
  | char (c : Char)
  | defect (bytes : List UInt8) (reason : Reason)
  deriving DecidableEq, Repr

/-- The start of a character of several bytes: what was read, how many bytes are owed, the range
of the next one, and the value so far. -/
structure Partial where
  bytes : List UInt8
  owed : Nat
  low : Nat
  high : Nat
  value : Nat

/-- What a first byte begins: a whole character, several bytes, or nothing. -/
def lead (b : UInt8) : Option (Char ⊕ Partial) :=
  let n := b.toNat
  if n < 0x80 then some (.inl (Char.ofNat n))
  else if n < 0xC2 then none
  else if n < 0xE0 then some (.inr ⟨[b], 1, 0x80, 0xBF, n - 0xC0⟩)
  else if n = 0xE0 then some (.inr ⟨[b], 2, 0xA0, 0xBF, 0⟩)
  else if n = 0xED then some (.inr ⟨[b], 2, 0x80, 0x9F, 0xD⟩)
  else if n < 0xF0 then some (.inr ⟨[b], 2, 0x80, 0xBF, n - 0xE0⟩)
  else if n = 0xF0 then some (.inr ⟨[b], 3, 0x90, 0xBF, 0⟩)
  else if n < 0xF4 then some (.inr ⟨[b], 3, 0x80, 0xBF, n - 0xF0⟩)
  else if n = 0xF4 then some (.inr ⟨[b], 3, 0x80, 0x8F, 4⟩)
  else none

/-- The reading of a byte sequence, given the character that is being read. -/
def items : Option Partial → List UInt8 → List Item
  | none, [] => []
  | some p, [] => [.defect p.bytes .endOfData]
  | some p, b :: rest =>
    if p.low ≤ b.toNat ∧ b.toNat ≤ p.high then
      let value := p.value * 0x40 + (b.toNat - 0x80)
      if p.owed = 1 then .char (Char.ofNat value) :: items none rest
      else items (some ⟨p.bytes ++ [b], p.owed - 1, 0x80, 0xBF, value⟩) rest
    else
      .defect p.bytes .continuation :: match lead b with
        | some (.inl c) => .char c :: items none rest
        | some (.inr q) => items (some q) rest
        | none => .defect [b] .startByte :: items none rest
  | none, b :: rest =>
    match lead b with
    | some (.inl c) => .char c :: items none rest
    | some (.inr q) => items (some q) rest
    | none => .defect [b] .startByte :: items none rest

/-- Every defect read as U+FFFD. -/
def decodeLossy (bytes : List UInt8) : List Char :=
  (items none bytes).map fun
    | .char c => c
    | .defect _ _ => Char.ofNat 0xFFFD

structure Error where
  position : Nat
  bytes : List UInt8
  reason : Reason
  deriving DecidableEq, Repr

/-- The characters of a reading without defects, counting bytes from `position`. -/
def charsOf (position : Nat) : List Item → Except Error (List Char)
  | [] => .ok []
  | .char c :: rest => (c :: ·) <$> charsOf (position + (encodeChar c).length) rest
  | .defect bytes reason :: _ => .error ⟨position, bytes, reason⟩

def decode (bytes : List UInt8) : Except Error (List Char) := charsOf 0 (items none bytes)

def isContinuation (b : UInt8) : Bool := 0x80 ≤ b.toNat && b.toNat ≤ 0xBF

/-- The numbers of the characters of a reading. Three bytes that would be half a surrogate pair, which
a reading has as three defects, pass as its number. -/
def numbers (position : Nat) : List Item → Except Error (List Nat)
  | [] => .ok []
  | .char c :: rest => (c.toNat :: ·) <$> numbers (position + (encodeChar c).length) rest
  | .defect [a] .continuation :: .defect [b] .startByte :: .defect [c] .startByte :: rest =>
    if a = 0xED ∧ isContinuation b ∧ isContinuation c then
      let half := 0xD000 + (b.toNat - 0x80) * 0x40 + (c.toNat - 0x80)
      (half :: ·) <$> numbers (position + 3) rest
    else .error ⟨position, [a], .continuation⟩
  | .defect bytes reason :: _ => .error ⟨position, bytes, reason⟩

def Reason.message : Reason → String
  | .startByte => "invalid start byte"
  | .continuation => "invalid continuation byte"
  | .endOfData => "unexpected end of data"

/-- One byte is shown with its value, several with their range. -/
def undecodable (codec : String) (position : Nat) (bytes : List UInt8) (reason : String) : String :=
  match bytes with
  | [b] =>
    "'" ++ codec ++ "' codec can't decode byte 0x" ++ String.ofList (hex 2 b.toNat) ++
      " in position " ++ toString position ++ ": " ++ reason
  | _ =>
    "'" ++ codec ++ "' codec can't decode bytes in position " ++ toString position ++ "-" ++
      toString (position + bytes.length - 1) ++ ": " ++ reason

end AdminConsole.Text.Utf8
