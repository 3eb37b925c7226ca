/-!
Binary64 numbers. The finite magnitudes are numbered from zero in increasing order, so a finite
number is a sign and the rank of its magnitude. Every finite magnitude is a whole number of units
of 2⁻¹⁰⁷⁴; sums, products and comparisons are computed exactly in those units and rounded once,
to the nearest number, a tie going to the even rank.
-/

namespace AdminConsole

def pow2 (n : Nat) : Nat := Nat.pow 2 n

def pow10 (n : Nat) : Nat := Nat.pow 10 n

theorem pow2_add (a b : Nat) : pow2 (a + b) = pow2 a * pow2 b := Nat.pow_add 2 a b

theorem pow2_le {a b : Nat} (h : a ≤ b) : pow2 a ≤ pow2 b := Nat.pow_le_pow_right (by decide) h

theorem pow2_pos (n : Nat) : 0 < pow2 n := Nat.two_pow_pos n

inductive Binary64 where
  | nan
  | infinite (negative : Bool)
  | finite (negative : Bool) (rank : Nat) (bounded : rank < 2047 * pow2 52)
  deriving DecidableEq, Repr

namespace Binary64

def unitsPerOne : Nat := pow2 1074

/-- The magnitude of a rank, in units. Ranks below 2⁵² count single units; after that each run of
2⁵² ranks has steps twice as long as the run before. -/
def unitsOfRank (rank : Nat) : Nat :=
  let doublings := rank / pow2 52 - 1
  (rank - doublings * pow2 52) * pow2 doublings

/-- The whole number nearest to `num / den`, a half going to the even neighbour. -/
def roundHalfEven (num den : Nat) : Nat :=
  let floor := num / den
  let twice := 2 * (num % den)
  if den < twice ∨ (twice = den ∧ floor % 2 = 1) then floor + 1 else floor

/-- The rank nearest to `num / den` units. -/
def nearestRank (num den : Nat) : Nat :=
  let doublings := Nat.log2 (num / den) - 52
  doublings * pow2 52 + roundHalfEven num (den * pow2 doublings)

/-- The number with the given sign and rank; ranks beyond the last finite one are infinite. -/
def ofRank (negative : Bool) (rank : Nat) : Binary64 :=
  if h : rank < 2047 * pow2 52 then .finite negative rank h else .infinite negative

/-- The number nearest to `num / den` units with the given sign. -/
def ofUnits (negative : Bool) (num den : Nat) : Binary64 :=
  ofRank negative (nearestRank num den)

def zero : Binary64 := .finite false 0 (by decide)

def isNegative : Binary64 → Bool
  | .nan => false
  | .infinite negative => negative
  | .finite negative _ _ => negative

def isNan : Binary64 → Bool
  | .nan => true
  | _ => false

def isZero : Binary64 → Bool
  | .finite _ 0 _ => true
  | _ => false

def units? : Binary64 → Option Int
  | .finite negative rank _ =>
    some (if negative then -(unitsOfRank rank : Int) else (unitsOfRank rank : Int))
  | _ => none

/-- The number itself, unless it is not finite. -/
def finite? : Binary64 → Option Binary64
  | .finite negative rank bounded => some (.finite negative rank bounded)
  | _ => none

/-- The number nearest to a whole number; none when that one is infinite. -/
def ofInt? (n : Int) : Option Binary64 :=
  (ofUnits (n < 0) (n.natAbs * unitsPerOne) 1).finite?

/-- The number nearest to `± digits · 10 ^ exponent`. Exponents that decide the answer by size
alone never reach the arithmetic. -/
def ofDecimal (negative : Bool) (digits : Nat) (exponent : Int) : Binary64 :=
  if digits = 0 then ofRank negative 0
  else if 310 < exponent then .infinite negative
  else if (digits.log2 : Int) + 1 + 3 * exponent < -1076 then ofRank negative 0
  else if 0 ≤ exponent then ofUnits negative (digits * pow10 exponent.toNat * unitsPerOne) 1
  else ofUnits negative (digits * unitsPerOne) (pow10 (-exponent).toNat)

def neg : Binary64 → Binary64
  | .nan => .nan
  | .infinite negative => .infinite !negative
  | .finite negative rank bounded => .finite (!negative) rank bounded

/-- A sum that is exactly zero is negative only if both terms are. -/
def add : Binary64 → Binary64 → Binary64
  | .nan, _ => .nan
  | _, .nan => .nan
  | .infinite s, .infinite t => if s = t then .infinite s else .nan
  | .infinite s, .finite _ _ _ => .infinite s
  | .finite _ _ _, .infinite t => .infinite t
  | .finite s m hm, .finite t n hn =>
    match (units? (.finite s m hm)).getD 0 + (units? (.finite t n hn)).getD 0 with
    | 0 => ofRank (s && t) 0
    | sum => ofUnits (sum < 0) sum.natAbs 1

def sub (x y : Binary64) : Binary64 := add x (neg y)

def mul : Binary64 → Binary64 → Binary64
  | .nan, _ => .nan
  | _, .nan => .nan
  | .infinite s, .infinite t => .infinite (s != t)
  | .infinite s, .finite t n _ => if n = 0 then .nan else .infinite (s != t)
  | .finite s m _, .infinite t => if m = 0 then .nan else .infinite (s != t)
  | .finite s m _, .finite t n _ => ofUnits (s != t) (unitsOfRank m * unitsOfRank n) unitsPerOne

/-- Exact order; nothing compares with a value that is no number. -/
def lt : Binary64 → Binary64 → Bool
  | .nan, _ => false
  | _, .nan => false
  | .infinite s, .infinite t => s && !t
  | .infinite s, .finite _ _ _ => s
  | .finite _ _ _, .infinite t => !t
  | .finite s m hm, .finite t n hn =>
    (units? (.finite s m hm)).getD 0 < (units? (.finite t n hn)).getD 0

/-- The second number if it is greater than the first, and the first if it is not. -/
def latest (x y : Binary64) : Binary64 := if x.lt y then y else x

def compareInt? (x : Binary64) (n : Int) : Option Ordering :=
  match x with
  | .nan => none
  | .infinite negative => some (if negative then .lt else .gt)
  | .finite s m hm => some (compare ((units? (.finite s m hm)).getD 0) (n * unitsPerOne))

/-- The whole part, cut toward zero; none for a value that is not finite. -/
def truncate? : Binary64 → Option Int
  | .finite negative rank _ =>
    let whole := unitsOfRank rank / unitsPerOne
    some (if negative then -(whole : Int) else (whole : Int))
  | _ => none

def isWhole : Binary64 → Bool
  | .finite _ rank _ => unitsOfRank rank % unitsPerOne = 0
  | _ => false

theorem roundHalfEven_le (num den : Nat) : roundHalfEven num den ≤ num / den + 1 := by
  simp only [roundHalfEven]
  split <;> omega

theorem nearestRank_lt {num k : Nat} (h : num < pow2 k) (hk : k ≤ 2097) :
    nearestRank num 1 < 2047 * pow2 52 := by
  have hlog : num.log2 < 2097 := by
    by_cases hzero : num = 0
    · subst hzero
      decide
    · exact Nat.lt_of_lt_of_le ((Nat.log2_lt hzero).mpr h) hk
  simp only [nearestRank, Nat.div_one, Nat.one_mul]
  generalize hd : num.log2 - 52 = doublings
  have hfit : num < pow2 53 * pow2 doublings := by
    rw [← pow2_add]
    exact Nat.lt_of_lt_of_le Nat.lt_log2_self (pow2_le (by omega))
  have hquot : num / pow2 doublings < pow2 53 :=
    (Nat.div_lt_iff_lt_mul (pow2_pos doublings)).mpr hfit
  have hround := roundHalfEven_le num (pow2 doublings)
  have htwice : pow2 53 = 2 * pow2 52 := pow2_add 1 52
  have hsum : doublings * pow2 52 + 2 * pow2 52 = (doublings + 2) * pow2 52 :=
    (Nat.add_mul doublings 2 (pow2 52)).symm
  have hlt : (doublings + 2) * pow2 52 < 2047 * pow2 52 :=
    Nat.mul_lt_mul_of_pos_right (by omega) (pow2_pos 52)
  omega

theorem finite?_ofUnits {num den : Nat} (h : nearestRank num den < 2047 * pow2 52)
    (negative : Bool) : (ofUnits negative num den).finite?.isSome := by
  rw [ofUnits, ofRank, dif_pos h]
  rfl

theorem units_lt {m k : Nat} (h : m < pow2 k) : m * unitsPerOne < pow2 (k + 1074) := by
  rw [pow2_add, unitsPerOne]
  exact Nat.mul_lt_mul_of_pos_right h (pow2_pos 1074)

/-- Whole numbers up to a size have a finite number near them. -/
theorem ofInt?_isSome {n : Int} {k : Nat} (h : n.natAbs < pow2 k) (hk : k ≤ 1022) :
    (ofInt? n).isSome :=
  finite?_ofUnits (nearestRank_lt (units_lt h) (by omega)) _

end Binary64

end AdminConsole
