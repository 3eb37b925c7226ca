import AdminConsole.Number.Binary64

/-!
The fewest decimal digits that read back as a given binary64 number, and the nearest such digits.
A value `digits · 10 ^ exponent` is sought on ever finer decimal grids; the exact decimal
expansion stands behind the last grid, so an answer always reads back.
-/

namespace AdminConsole.Binary64

/-- A decimal magnitude `digits · 10 ^ exponent`. -/
structure Decimal where
  digits : Nat
  exponent : Int
  deriving DecidableEq, Repr

/-- Trailing zeros of the digits moved into the exponent, at most `fuel` of them. -/
def Decimal.strip : Nat → Decimal → Decimal
  | 0, d => d
  | fuel + 1, d =>
    if d.digits ≠ 0 ∧ d.digits % 10 = 0 then strip fuel ⟨d.digits / 10, d.exponent + 1⟩ else d

/-- Whether the decimal is rounded to the magnitude of the given rank. -/
def Decimal.readsBack (rank : Nat) (d : Decimal) : Bool :=
  decide (ofDecimal false d.digits d.exponent = ofRank false rank)

/-- The least `k` from `start` on with `units < 10 ^ k` ones, within three steps. -/
def pointAfter (units : Nat) (start : Int) : Int :=
  let below (k : Int) : Bool :=
    if 0 ≤ k then units < pow10 k.toNat * unitsPerOne
    else units * pow10 (-k).toNat < unitsPerOne
  if below start then start
  else if below (start + 1) then start + 1
  else if below (start + 2) then start + 2
  else start + 3

/-- The neighbours of a magnitude on the grid of step `10 ^ exponent`, the nearer one first and
the even one first when both are equally near. -/
def neighbours (units : Nat) (exponent : Int) : List Decimal :=
  let num := if 0 ≤ exponent then units else units * pow10 (-exponent).toNat
  let den := if 0 ≤ exponent then pow10 exponent.toNat * unitsPerOne else unitsPerOne
  let floor := num / den
  let nearest := roundHalfEven num den
  let other := if nearest = floor then floor + 1 else floor
  [⟨nearest, exponent⟩, ⟨other, exponent⟩]

/-- Every decimal that is tried, shortest first. -/
def candidates (rank : Nat) : List Decimal :=
  let units := unitsOfRank rank
  let bits : Int := (units.log2 : Int) - 1074
  let point := pointAfter units (Int.fdiv (bits * 30103) 100000 - 1)
  (List.range 17).flatMap fun n => neighbours units (point - (n + 1 : Nat))

def exactDecimal (rank : Nat) : Decimal :=
  ⟨unitsOfRank rank * Nat.pow 5 1074, -1074⟩

/-- The shortest decimal that reads back as the magnitude of the given rank. -/
def shortest (rank : Nat) : Decimal :=
  let found := ((candidates rank).find? (Decimal.readsBack rank)).getD (exactDecimal rank)
  found.strip (Nat.toDigits 10 found.digits).length

/-- A decimal as text: positional from 10⁻⁴ to below 10¹⁶, with a digit on both sides of the
point; otherwise one digit before the point and a signed exponent of at least two digits. -/
def Decimal.text (d : Decimal) : List Char :=
  let ds := Nat.toDigits 10 d.digits
  let point : Int := ds.length + d.exponent
  if d.digits = 0 then ['0', '.', '0']
  else if -4 < point ∧ point ≤ 0 then
    ['0', '.'] ++ List.replicate (-point).toNat '0' ++ ds
  else if 0 < point ∧ point ≤ 16 then
    if d.exponent < 0 then ds.take point.toNat ++ '.' :: ds.drop point.toNat
    else ds ++ List.replicate d.exponent.toNat '0' ++ ['.', '0']
  else
    let e := point - 1
    let size := Nat.toDigits 10 e.natAbs
    ds.take 1 ++ (if ds.length = 1 then [] else '.' :: ds.drop 1) ++
      'e' :: (if e < 0 then '-' else '+') :: (if size.length < 2 then '0' :: size else size)

def finiteText (negative : Bool) (rank : Nat) : List Char :=
  (if negative then ['-'] else []) ++ (shortest rank).text

/-- A number as text, with short names for the values that are not finite. -/
def text : Binary64 → String
  | .nan => "nan"
  | .infinite negative => if negative then "-inf" else "inf"
  | .finite negative rank _ => String.ofList (finiteText negative rank)

end AdminConsole.Binary64
