/-!
Base64, read strictly: nothing outside the alphabet, padding only where it completes the last
group and nothing after it. Bits left over in the last group are ignored.
-/

namespace AdminConsole.Base64

def sextetChar (n : Nat) : Char :=
  if n < 26 then Char.ofNat (65 + n)
  else if n < 52 then Char.ofNat (71 + n)
  else if n < 62 then Char.ofNat (n - 4)
  else if n = 62 then '+'
  else '/'

def sextet? (c : Char) : Option Nat :=
  let n := c.toNat
  if 65 ≤ n ∧ n ≤ 90 then some (n - 65)
  else if 97 ≤ n ∧ n ≤ 122 then some (n - 71)
  else if 48 ≤ n ∧ n ≤ 57 then some (n + 4)
  else if c = '+' then some 62
  else if c = '/' then some 63
  else none

/-- Three bytes become four characters; a last group of one or two bytes is padded. -/
def encode : List UInt8 → List Char
  | [] => []
  | [a] =>
    let n := a.toNat * 16
    [sextetChar (n / 64), sextetChar (n % 64), '=', '=']
  | [a, b] =>
    let n := (a.toNat * 256 + b.toNat) * 4
    [sextetChar (n / 4096), sextetChar (n / 64 % 64), sextetChar (n % 64), '=']
  | a :: b :: c :: rest =>
    let n := (a.toNat * 256 + b.toNat) * 256 + c.toNat
    sextetChar (n / 262144) :: sextetChar (n / 4096 % 64) :: sextetChar (n / 64 % 64) ::
      sextetChar (n % 64) :: encode rest

inductive Error where
  | notAscii
  | leadingPadding
  | excessData
  | outsideAlphabet
  | discontinuousPadding
  | danglingCharacter (count : Nat)
  | incorrectPadding
  deriving DecidableEq, Repr

def Error.message : Error → String
  | .notAscii => "string argument should contain only ASCII characters"
  | .leadingPadding => "Leading padding not allowed"
  | .excessData => "Excess data after padding"
  | .outsideAlphabet => "Only base64 data is allowed"
  | .discontinuousPadding => "Discontinuous padding not allowed"
  | .danglingCharacter count =>
    "Invalid base64-encoded string: number of data characters (" ++ toString count ++
      ") cannot be 1 more than a multiple of 4"
  | .incorrectPadding => "Incorrect padding"

def groupBytes : List Nat → List UInt8
  | [a, b] => [UInt8.ofNat ((a * 64 + b) / 16)]
  | [a, b, c] =>
    let n := (a * 64 + b) * 64 + c
    [UInt8.ofNat (n / 1024), UInt8.ofNat (n / 4 % 256)]
  | [a, b, c, d] =>
    let n := ((a * 64 + b) * 64 + c) * 64 + d
    [UInt8.ofNat (n / 65536), UInt8.ofNat (n / 256 % 256), UInt8.ofNat (n % 256)]
  | _ => []

/-- Reads on with the values of the current group, the paddings since its last value, whether any
padding was seen, and the count of data characters so far. A padding before the third place of a
group is passed over. -/
def scan (group : List Nat) (pads : Nat) (padded : Bool) (count : Nat) :
    List Char → Except Error (List UInt8)
  | [] =>
    match group with
    | [] => .ok []
    | [_] => .error (.danglingCharacter count)
    | _ => .error .incorrectPadding
  | c :: rest =>
    if c = '=' then
      if 2 ≤ group.length then
        if 4 ≤ group.length + (pads + 1) then
          if rest.isEmpty then .ok (groupBytes group) else .error .excessData
        else scan group (pads + 1) true count rest
      else scan group pads true count rest
    else
      match sextet? c with
      | none => .error .outsideAlphabet
      | some value =>
        if padded then .error .discontinuousPadding
        else if group.length = 3 then
          (groupBytes (group ++ [value]) ++ ·) <$> scan [] 0 false (count + 1) rest
        else scan (group ++ [value]) 0 false (count + 1) rest

def decode (cs : List Char) : Except Error (List UInt8) :=
  if cs.any fun c => 128 ≤ c.toNat then .error .notAscii
  else match cs with
    | '=' :: _ => .error .leadingPadding
    | cs => scan [] 0 false 0 cs

end AdminConsole.Base64
