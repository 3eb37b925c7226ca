import AdminConsole.Proofs.Number.Exact
import AdminConsole.Proofs.Resolve.Instants

/-!
Binary64 numbers beside zero. Finite numbers are in the order of their units, and a number of no
units is zero, whatever its sign. What is no number is not below zero, and it is not zero either.
-/

namespace AdminConsole

namespace Binary64

variable {x y : Binary64} {u v : Int}

theorem unitsOfRank_eq_zero_iff {rank : Nat} : unitsOfRank rank = 0 ↔ rank = 0 := by
  constructor
  · intro hzero
    have hnearest := nearestRank_unitsOfRank rank
    rw [hzero, nearestRank_small (by decide)] at hnearest
    exact hnearest.symm
  · rintro rfl
    exact unitsOfRank_zero

theorem lt_iff_units (hx : x.units? = some u) (hy : y.units? = some v) :
    x.lt y = true ↔ u < v := by
  cases x with
  | finite s m hm =>
    cases y with
    | finite t n hn => rw [lt, hx, hy, decide_eq_true_eq, Option.getD_some, Option.getD_some]
    | nan => cases hy
    | infinite t => cases hy
  | nan => cases hx
  | infinite s => cases hx

theorem isZero_iff_units (hx : x.units? = some u) : x.isZero = true ↔ u = 0 := by
  cases x with
  | finite negative rank bounded =>
    have hrank := @unitsOfRank_eq_zero_iff rank
    rw [units?, Option.some.injEq] at hx
    subst hx
    cases rank with
    | zero =>
      refine iff_of_true rfl ?_
      split <;> omega
    | succ rank =>
      refine iff_of_false Bool.false_ne_true ?_
      split <;> omega
  | nan => cases hx
  | infinite negative => cases hx

theorem units?_of_zero : zero.units? = some 0 := by
  rw [zero, units?, unitsOfRank_zero]
  rfl

theorem lt_nan : x.lt .nan = false := by cases x <;> rfl

theorem not_le_nan : ¬ x ≤ .nan := fun h => Bool.noConfusion h.2.1

/-- What is not below zero is no number, or comes with zero or after it. -/
theorem lt_zero_eq_false_iff : x.lt zero = false ↔ x.isNan = true ∨ zero ≤ x := by
  cases x with
  | nan => exact iff_of_true rfl (.inl rfl)
  | infinite negative =>
    constructor
    · exact fun hlt => .inr ⟨rfl, rfl, hlt⟩
    · exact fun h => h.elim nofun fun hle => hle.2.2
  | finite negative rank bounded =>
    constructor
    · exact fun hlt => .inr ⟨rfl, rfl, hlt⟩
    · exact fun h => h.elim nofun fun hle => hle.2.2

/-- What is neither below zero nor zero is no number, or comes after zero. -/
theorem lt_or_isZero_eq_false_iff :
    (x.lt zero || x.isZero) = false ↔ x.isNan = true ∨ zero.lt x = true := by
  cases x with
  | nan => exact iff_of_true rfl (.inl rfl)
  | infinite negative =>
    cases negative with
    | false => exact iff_of_true rfl (.inr rfl)
    | true => exact iff_of_false nofun (fun h => h.elim nofun nofun)
  | finite negative rank bounded =>
    have hunits : (finite negative rank bounded).units? = some _ := rfl
    have hbelow := lt_iff_units hunits units?_of_zero
    have habove := lt_iff_units units?_of_zero hunits
    rw [Bool.or_eq_false_iff, Bool.eq_false_iff, Bool.eq_false_iff, Ne, Ne, hbelow,
      isZero_iff_units hunits, habove]
    simp only [isNan, Bool.false_eq_true, false_or]
    omega

end Binary64

end AdminConsole
