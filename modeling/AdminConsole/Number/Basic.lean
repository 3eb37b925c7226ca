import AdminConsole.Number.Shortest

/-!
Numbers as they are written: whole numbers of any size and binary64 numbers. Between the two kinds
comparison is exact, while a sum or difference is rounded, and fails for a whole number that no
finite binary64 number is near.
-/

namespace AdminConsole

inductive Number where
  | whole (n : Int)
  | real (x : Binary64)
  deriving DecidableEq, Repr

inductive NumberError where
  | tooLargeForReal
  | nanHasNoWholePart
  | infinityHasNoWholePart
  | tooManyDigitsToRead (count : Nat)
  | tooManyDigitsToWrite
  deriving DecidableEq, Repr

def digitLimit : Nat := 4300

def NumberError.message : NumberError → String
  | .tooLargeForReal => "int too large to convert to float"
  | .nanHasNoWholePart => "cannot convert float NaN to integer"
  | .infinityHasNoWholePart => "cannot convert float infinity to integer"
  | .tooManyDigitsToRead count =>
    "Exceeds the limit (" ++ toString digitLimit ++
      " digits) for integer string conversion: value has " ++ toString count ++
      " digits; use sys.set_int_max_str_digits() to increase the limit"
  | .tooManyDigitsToWrite =>
    "Exceeds the limit (" ++ toString digitLimit ++
      " digits) for integer string conversion; " ++
      "use sys.set_int_max_str_digits() to increase the limit"

namespace Number

def toReal : Number → Except NumberError Binary64
  | .whole n => (Binary64.ofInt? n).elim (.error .tooLargeForReal) .ok
  | .real x => .ok x

def add : Number → Number → Except NumberError Number
  | .whole m, .whole n => .ok (.whole (m + n))
  | x, y => do
    let x ← x.toReal
    let y ← y.toReal
    return .real (x.add y)

def sub : Number → Number → Except NumberError Number
  | .whole m, .whole n => .ok (.whole (m - n))
  | x, y => do
    let x ← x.toReal
    let y ← y.toReal
    return .real (x.sub y)

def mul : Number → Number → Except NumberError Number
  | .whole m, .whole n => .ok (.whole (m * n))
  | x, y => do
    let x ← x.toReal
    let y ← y.toReal
    return .real (x.mul y)

theorem toReal_error {x : Number} {e : NumberError} (h : x.toReal = .error e) :
    e = .tooLargeForReal := by
  cases x with
  | real x => cases h
  | whole n =>
    rw [toReal] at h
    generalize Binary64.ofInt? n = rounded at h
    cases rounded with
    | none => exact (Except.error.inj h).symm
    | some x => cases h

theorem toReal_whole {n : Int} {k : Nat} (h : n.natAbs < pow2 k) (hk : k ≤ 1022) :
    ∃ x, toReal (.whole n) = .ok x := by
  obtain ⟨x, hx⟩ := Option.isSome_iff_exists.mp (Binary64.ofInt?_isSome h hk)
  refine ⟨x, ?_⟩
  rw [toReal, hx]
  rfl

theorem mul_whole (x : Number) {n : Int} {k : Nat} (h : n.natAbs < pow2 k) (hk : k ≤ 1022) :
    ∃ y, x.mul (.whole n) = .ok y := by
  cases x with
  | whole m => exact ⟨_, rfl⟩
  | real x =>
    obtain ⟨y, hy⟩ := toReal_whole h hk
    refine ⟨.real (x.mul y), ?_⟩
    rw [mul, hy]
    · rfl
    · intro m n hreal
      cases hreal

theorem mul_error {x y : Number} {e : NumberError} (h : x.mul y = .error e) :
    e = .tooLargeForReal := by
  have hreals : ∀ x y : Number, (do
      let x ← x.toReal
      let y ← y.toReal
      return Number.real (x.mul y)) = Except.error e → e = .tooLargeForReal := by
    intro x y h
    cases hx : x.toReal with
    | error cause =>
      rw [hx] at h
      exact Except.error.inj h ▸ toReal_error hx
    | ok r =>
      rw [hx] at h
      cases hy : y.toReal with
      | error cause =>
        rw [hy] at h
        exact Except.error.inj h ▸ toReal_error hy
      | ok r' =>
        rw [hy] at h
        cases h
  cases x with
  | real x => exact hreals (.real x) y h
  | whole m =>
    cases y with
    | whole n => cases h
    | real y => exact hreals (.whole m) (.real y) h

/-- Whether a number is at least a whole number; false for a value that is no number. -/
def atLeast : Number → Int → Bool
  | .whole m, n => n ≤ m
  | .real x, n =>
    match x.compareInt? n with
    | some .gt => true
    | some .eq => true
    | _ => false

/-- Exact order of any two numbers. -/
def lt : Number → Number → Bool
  | .whole m, .whole n => m < n
  | .real x, .real y => x.lt y
  | .real x, .whole n => x.compareInt? n == some .lt
  | .whole m, .real y => y.compareInt? m == some .gt

def truncate : Number → Except NumberError Int
  | .whole n => .ok n
  | .real .nan => .error .nanHasNoWholePart
  | .real x =>
    match x.truncate? with
    | some n => .ok n
    | none => .error .infinityHasNoWholePart

def isZero : Number → Bool
  | .whole n => n = 0
  | .real x => x.isZero

def text : Number → String
  | .whole n => toString n
  | .real x => x.text

end Number

end AdminConsole
