import AdminConsole.Proofs.Number.Exact

/-!
Products with powers of two. Doubling a binary64 number leaves its significand as it is, so nothing is
rounded, and only what lies beyond every finite number becomes infinite. From the power 1024 on the
power of two lies there itself, and there is no product.
-/

namespace AdminConsole

namespace Binary64

/-- At most 53 bits are kept as they are, unless they lie beyond all finite numbers. -/
theorem ofUnits_shift (negative : Bool) {m : Nat} (e : Nat) (h : m < pow2 53) :
    (ofUnits negative (m * pow2 e) 1).units? =
        some (if negative then -((m * pow2 e : Nat) : Int) else ((m * pow2 e : Nat) : Int)) ∨
      ofUnits negative (m * pow2 e) 1 = .infinite negative ∧
        pow2 1024 * unitsPerOne ≤ m * pow2 e := by
  obtain ⟨significand, doublings, hnormal, heq⟩ := exists_normal_mul e h
  have hrank := hnormal.nearest
  have hunits := hnormal.units
  rw [← heq, ofUnits, hrank]
  by_cases hbounded : doublings * pow2 52 + significand < 2047 * pow2 52
  · left
    rw [ofRank_of_lt _ hbounded, units?, hunits]
  · right
    rw [Nat.not_lt] at hbounded
    refine ⟨ofRank_of_le _ hbounded, ?_⟩
    have htwice : pow2 53 = 2 * pow2 52 := pow2_succ 52
    have hlt := hnormal.lt
    have hdoublings : 2046 ≤ doublings := by
      refine Nat.not_lt.mp fun hless => ?_
      have hle : doublings * pow2 52 ≤ 2045 * pow2 52 := Nat.mul_le_mul_right _ (by omega)
      omega
    have hfull : pow2 52 ≤ significand := hnormal.full.resolve_left (by omega)
    calc pow2 1024 * unitsPerOne = pow2 52 * pow2 2046 := by
          rw [unitsPerOne, ← pow2_add, ← pow2_add]
      _ ≤ significand * pow2 doublings := Nat.mul_le_mul hfull (pow2_le hdoublings)

theorem pow2_lt_wholeLimit_iff {k : Nat} : pow2 k < wholeLimit ↔ k < 1024 := by
  have htop : pow2 1024 = 2 * pow2 1023 := pow2_succ 1023
  have hhalf : pow2 1023 = 2 * pow2 1022 := pow2_succ 1022
  have hgap : pow2 970 ≤ pow2 1022 := pow2_le (by decide)
  have hpos := pow2_pos 970
  constructor
  · intro h
    refine Nat.not_le.mp fun hlarge => ?_
    have hle : pow2 1024 ≤ pow2 k := pow2_le hlarge
    rw [wholeLimit] at h
    omega
  · intro h
    have hle : pow2 k ≤ pow2 1023 := pow2_le (by omega)
    rw [wholeLimit]
    omega

theorem ofInt?_pow2_of_le {k : Nat} (h : 1024 ≤ k) : ofInt? (pow2 k : Nat) = none := by
  rw [ofInt?_eq_none_iff, Int.natAbs_natCast, ← Nat.not_lt, pow2_lt_wholeLimit_iff]
  omega

theorem ofInt?_pow2 {k : Nat} (h : k < 1024) : ∃ rank bounded,
    ofInt? (pow2 k : Nat) = some (.finite false rank bounded) ∧
      unitsOfRank rank = pow2 k * unitsPerOne := by
  have hbounded := (nearestRank_lt_iff (pow2 k)).mpr (pow2_lt_wholeLimit_iff.mpr h)
  have hsign : decide (((pow2 k : Nat) : Int) < 0) = false := by simp
  refine ⟨_, hbounded, ?_, ?_⟩
  · rw [ofInt?, hsign, Int.natAbs_natCast, ofUnits, ofRank_of_lt _ hbounded]
    rfl
  · have hone := unitsOfRank_nearestRank (m := 1) (k + 1074) (by decide)
    rwa [Nat.one_mul, pow2_add] at hone

theorem ofUnits_scale (negative : Bool) (num : Nat) {k : Nat} (h : 0 < k) :
    ofUnits negative (num * k) k = ofUnits negative num 1 := by
  have hscale := nearestRank_scale num 1 h
  rw [Nat.one_mul] at hscale
  rw [ofUnits, ofUnits, hscale]

theorem signed_mul (negative : Bool) (m k : Nat) :
    (if negative = true then -((m * k : Nat) : Int) else ((m * k : Nat) : Int)) =
      (if negative = true then -(m : Int) else (m : Int)) * k := by
  cases negative with
  | false => exact Int.natCast_mul m k
  | true => rw [if_pos rfl, if_pos rfl, Int.natCast_mul, Int.neg_mul]

theorem natAbs_signed (negative : Bool) (m : Nat) :
    (if negative = true then -(m : Int) else (m : Int)).natAbs = m := by
  cases negative <;> simp

/-- The product with a power of two is exact, or infinite if it lies beyond all finite numbers. -/
theorem mul_pow2 {x y : Binary64} {u : Int} {k : Nat} (hx : x.units? = some u)
    (hy : ofInt? (pow2 k : Nat) = some y) :
    (x.mul y).units? = some (u * pow2 k) ∨
      x.mul y = .infinite x.isNegative ∧ pow2 1024 * unitsPerOne ≤ u.natAbs * pow2 k := by
  have hk : k < 1024 := by
    refine Nat.not_le.mp fun hlarge => ?_
    rw [ofInt?_pow2_of_le hlarge] at hy
    cases hy
  obtain ⟨rank', bounded', hpower, hunits'⟩ := ofInt?_pow2 hk
  rw [hpower, Option.some.injEq] at hy
  subst hy
  cases x with
  | finite negative rank bounded =>
    obtain ⟨significand, doublings, hnormal, rfl⟩ := exists_normal rank
    have hproduct : mul (.finite negative _ bounded) (.finite false rank' bounded') =
        ofUnits negative (significand * pow2 (doublings + k)) 1 := by
      rw [mul, Bool.bne_false, hnormal.units, hunits', ← Nat.mul_assoc,
        ofUnits_scale negative _ unitsPerOne_pos, pow2_add, Nat.mul_assoc]
    have hshift := ofUnits_shift negative (doublings + k) hnormal.lt
    rw [pow2_add, ← Nat.mul_assoc, signed_mul] at hshift
    rw [units?, hnormal.units, Option.some.injEq] at hx
    rw [hproduct, pow2_add, ← Nat.mul_assoc, ← hx, natAbs_signed]
    exact hshift
  | nan => cases hx
  | infinite negative => cases hx

end Binary64

namespace Number

/-- A number doubled some times, exactly. Only a real number that would lie beyond all finite ones is
infinite instead. -/
def IsDoubled (x : Number) (times : Nat) (y : Number) : Prop :=
  ∀ u, x.units? = some u → y.units? = some (u * pow2 times) ∨
    ∃ r, x = .real r ∧ y = .real (.infinite r.isNegative) ∧
      pow2 1024 * Binary64.unitsPerOne ≤ u.natAbs * pow2 times

theorem mul_real (x : Binary64) (n : Int) :
    (real x).mul (.whole n) = (toReal (.whole n)).map fun y => .real (x.mul y) := by
  have hreal : toReal (real x) = .ok x := rfl
  rw [mul, hreal]
  · generalize toReal (.whole n) = y
    cases y <;> rfl
  · intro m n hreal
    cases hreal

theorem mul_pow2_whole (n : Int) (k : Nat) :
    ∃ y, (whole n).mul (.whole (pow2 k)) = .ok y ∧ (whole n).IsDoubled k y := by
  refine ⟨.whole (n * pow2 k), rfl, fun u hu => .inl ?_⟩
  rw [units?, Option.some.injEq] at hu
  rw [units?, ← hu, Int.mul_right_comm]

theorem mul_pow2_real (x : Binary64) {k : Nat} (h : k < 1024) :
    ∃ y, (real x).mul (.whole (pow2 k)) = .ok y ∧ (real x).IsDoubled k y := by
  obtain ⟨rank, bounded, hpower, -⟩ := Binary64.ofInt?_pow2 h
  have hreal : toReal (.whole (pow2 k)) = .ok (.finite false rank bounded) := by
    rw [toReal, hpower]
    rfl
  refine ⟨.real (x.mul (.finite false rank bounded)), by rw [mul_real, hreal]; rfl, fun u hu => ?_⟩
  rcases Binary64.mul_pow2 hu hpower with hexact | ⟨hinfinite, hlarge⟩
  · exact .inl hexact
  · exact .inr ⟨x, rfl, by rw [hinfinite], hlarge⟩

/-- A whole number can be doubled as often as one likes, a real number at most 1023 times. -/
theorem exists_mul_pow2 {x : Number} {k : Nat} (h : (∃ b, x = .whole b) ∨ k < 1024) :
    ∃ y, x.mul (.whole (pow2 k)) = .ok y ∧ x.IsDoubled k y := by
  cases x with
  | whole b => exact mul_pow2_whole b k
  | real r =>
    refine mul_pow2_real r (h.resolve_left ?_)
    rintro ⟨b, hwhole⟩
    cases hwhole

theorem mul_pow2_error (x : Binary64) {k : Nat} (h : 1024 ≤ k) :
    (real x).mul (.whole (pow2 k)) = .error .tooLargeForReal := by
  rw [mul_real, toReal, Binary64.ofInt?_pow2_of_le h]
  rfl

/-- Wherever there is a product with a power of two, the number was doubled. -/
theorem isDoubled_of_mul {x y : Number} {k : Nat} (h : x.mul (.whole (pow2 k)) = .ok y) :
    x.IsDoubled k y := by
  have hsmall : (∃ b, x = .whole b) ∨ k < 1024 := by
    cases x with
    | whole b => exact .inl ⟨b, rfl⟩
    | real r =>
      refine .inr (Nat.not_le.mp fun hlarge => ?_)
      rw [mul_pow2_error r hlarge] at h
      cases h
  obtain ⟨z, hz, hdoubled⟩ := exists_mul_pow2 hsmall
  rw [h] at hz
  cases hz
  exact hdoubled

end Number

end AdminConsole
