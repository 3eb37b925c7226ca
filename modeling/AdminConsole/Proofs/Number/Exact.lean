import AdminConsole.Number.Basic
import AdminConsole.Proofs.Number.Rounding

/-!
Whole numbers beside binary64 numbers: which whole numbers are too large to be subtracted from a
binary64 number, and when such a difference is exact.
-/

namespace AdminConsole

namespace Binary64

theorem pow2_succ (n : Nat) : pow2 (n + 1) = 2 * pow2 n := by
  rw [Nat.add_comm, pow2_add]
  rfl

theorem le_log2 {n k : Nat} (hn : n ≠ 0) (h : pow2 k ≤ n) : k ≤ n.log2 := (Nat.le_log2 hn).mpr h

theorem log2_lt {n k : Nat} (hn : n ≠ 0) (h : n < pow2 k) : n.log2 < k := (Nat.log2_lt hn).mpr h

/-! ### The largest whole numbers -/

/-- The least magnitude of a whole number that is rounded to no finite number. -/
def wholeLimit : Nat := pow2 1024 - pow2 970

theorem nearestRank_lt_iff (n : Nat) :
    nearestRank (n * unitsPerOne) 1 < 2047 * pow2 52 ↔ n < wholeLimit := by
  have htop : pow2 1024 = 2 * pow2 1023 := pow2_succ 1023
  have hhalf : pow2 971 = 2 * pow2 970 := pow2_succ 970
  have htwice : pow2 53 = 2 * pow2 52 := pow2_succ 52
  have hsteps : pow2 1024 = pow2 53 * pow2 971 := pow2_add 53 971
  have hgap : pow2 970 ≤ pow2 1023 := pow2_le (by decide)
  have hpos := pow2_pos 970
  rw [wholeLimit]
  by_cases hsmall : n < pow2 1023
  · exact iff_of_true (nearestRank_lt (units_lt hsmall) (by decide)) (by omega)
  by_cases hlarge : pow2 1024 ≤ n
  · have hsize : pow2 (52 + 2046) ≤ n * unitsPerOne := by
      rw [show 52 + 2046 = 1024 + 1074 from rfl, pow2_add]
      exact Nat.mul_le_mul_right _ hlarge
    exact iff_of_false (Nat.not_lt.mpr (le_nearestRank hsize)) (by omega)
  -- In the last binade the step is 2⁹⁷¹, and only its last number can be rounded up beyond it.
  have hlog : (n * unitsPerOne).log2 = 2097 := by
    have hne : n * unitsPerOne ≠ 0 :=
      Nat.mul_ne_zero (by omega) (Nat.ne_of_gt unitsPerOne_pos)
    have hlower : pow2 2097 ≤ n * unitsPerOne := by
      rw [show 2097 = 1023 + 1074 from rfl, pow2_add]
      exact Nat.mul_le_mul_right _ (by omega)
    have hupper : n * unitsPerOne < pow2 2098 := units_lt (by omega)
    have hle := le_log2 hne hlower
    have hlt := log2_lt hne hupper
    omega
  have hscale := roundHalfEven_scale n (pow2 971) unitsPerOne_pos
  rw [unitsPerOne, ← pow2_add] at hscale
  simp only [nearestRank, Nat.div_one, Nat.one_mul, hlog]
  rw [show 2097 - 52 = 971 + 1074 from rfl, unitsPerOne, hscale, roundHalfEven]
  have hdiv := Nat.div_add_mod n (pow2 971)
  have hmod := Nat.mod_lt n (pow2_pos 971)
  have hquot : n / pow2 971 < pow2 53 :=
    (Nat.div_lt_iff_lt_mul (pow2_pos 971)).mpr (by omega)
  generalize n / pow2 971 = q at hdiv hquot ⊢
  generalize n % pow2 971 = r at hdiv hmod ⊢
  by_cases hlast : q + 1 = pow2 53
  · have hn : n + pow2 971 = pow2 1024 + r := by
      rw [← hdiv, hsteps, ← hlast, Nat.add_mul, Nat.one_mul, Nat.mul_comm]
      omega
    split <;> omega
  · have hn : n < pow2 1024 - pow2 971 := by
      have hle : (q + 2) * pow2 971 ≤ pow2 53 * pow2 971 := Nat.mul_le_mul_right _ (by omega)
      rw [Nat.add_mul, Nat.mul_comm] at hle
      omega
    split <;> omega

theorem ofInt?_eq_none_iff (n : Int) : ofInt? n = none ↔ wholeLimit ≤ n.natAbs := by
  rw [← Nat.not_lt, ← nearestRank_lt_iff, ofInt?, ofUnits, ofRank]
  split
  · rename_i hbounded
    exact iff_of_false (by simp [finite?]) (not_not_intro hbounded)
  · rename_i hbounded
    exact iff_of_true rfl hbounded

theorem unitsOfRank_lt {rank : Nat} (h : rank < 2047 * pow2 52) :
    unitsOfRank rank < pow2 1024 * unitsPerOne := by
  obtain ⟨significand, doublings, hnormal, rfl⟩ := exists_normal rank
  have hpos := pow2_pos 52
  have hdoublings : doublings ≤ 2045 := by
    rcases hnormal.full with hzero | hfull
    · omega
    · refine Nat.not_lt.mp fun hlarge => Nat.not_le.mpr h ?_
      calc 2047 * pow2 52 = 2046 * pow2 52 + pow2 52 := Nat.succ_mul 2046 _
        _ ≤ doublings * pow2 52 + significand :=
          Nat.add_le_add (Nat.mul_le_mul_right _ hlarge) hfull
  rw [hnormal.units, unitsPerOne, ← pow2_add]
  calc significand * pow2 doublings < pow2 53 * pow2 doublings :=
        Nat.mul_lt_mul_of_pos_right hnormal.lt (pow2_pos doublings)
    _ = pow2 (53 + doublings) := (pow2_add _ _).symm
    _ ≤ pow2 (1024 + 1074) := pow2_le (by omega)

/-- The whole part of a finite number has far fewer digits than may be written. -/
theorem truncate?_lt {x : Binary64} {n : Int} (h : x.truncate? = some n) :
    n.natAbs < pow2 1024 := by
  cases x with
  | finite negative rank bounded =>
    have hlt : unitsOfRank rank / unitsPerOne < pow2 1024 :=
      (Nat.div_lt_iff_lt_mul unitsPerOne_pos).mpr (unitsOfRank_lt bounded)
    rw [truncate?, Option.some.injEq] at h
    generalize unitsOfRank rank / unitsPerOne = k at h hlt
    split at h <;> omega
  | nan => cases h
  | infinite negative => cases h

/-! ### Magnitudes that are not rounded -/

theorem exists_normal_mul {m : Nat} (e : Nat) (h : m < pow2 53) :
    ∃ significand doublings, Normal significand doublings ∧
      significand * pow2 doublings = m * pow2 e := by
  induction e generalizing m with
  | zero => exact ⟨m, 0, ⟨h, .inl rfl⟩, rfl⟩
  | succ e ih =>
    by_cases hfull : pow2 52 ≤ m
    · exact ⟨m, e + 1, ⟨h, .inr hfull⟩, rfl⟩
    · have htwice : pow2 53 = 2 * pow2 52 := pow2_succ 52
      obtain ⟨significand, doublings, hnormal, heq⟩ := ih (m := 2 * m) (by omega)
      refine ⟨significand, doublings, hnormal, ?_⟩
      rw [heq, pow2_succ, Nat.mul_comm 2 m, Nat.mul_assoc]

theorem unitsOfRank_nearestRank {m : Nat} (e : Nat) (h : m < pow2 53) :
    unitsOfRank (nearestRank (m * pow2 e) 1) = m * pow2 e := by
  obtain ⟨significand, doublings, hnormal, heq⟩ := exists_normal_mul e h
  rw [← heq, hnormal.nearest, hnormal.units]

/-- At most 53 bits anywhere in the range of the finite numbers are kept as they are. -/
theorem ofUnits_mul (negative : Bool) {m e : Nat} (h : m < pow2 53) (he : e ≤ 2044) :
    ∃ rank bounded, ofUnits negative (m * pow2 e) 1 = .finite negative rank bounded ∧
      unitsOfRank rank = m * pow2 e := by
  have hsize : m * pow2 e < pow2 (53 + e) := by
    rw [pow2_add]
    exact Nat.mul_lt_mul_of_pos_right h (pow2_pos e)
  have hbounded := nearestRank_lt hsize (by omega)
  exact ⟨_, hbounded, ofRank_of_lt negative hbounded, unitsOfRank_nearestRank e h⟩

theorem unitsOfRank_zero : unitsOfRank 0 = 0 := by
  rw [unitsOfRank, Nat.zero_sub, Nat.zero_mul]

theorem rank_zero_lt : 0 < 2047 * pow2 52 := Nat.mul_pos (by decide) (pow2_pos 52)

theorem signed_not (negative : Bool) (k : Int) :
    (if (!negative) = true then -k else k) = -(if negative = true then -k else k) := by
  cases negative with
  | false => rfl
  | true => exact (Int.neg_neg k).symm

theorem units?_neg {y : Binary64} {v : Int} (h : y.units? = some v) :
    (neg y).units? = some (-v) := by
  cases y with
  | finite negative rank bounded =>
    rw [units?, Option.some.injEq] at h
    rw [neg, units?, signed_not, h]
  | nan => cases h
  | infinite negative => cases h

theorem units?_ofUnits {k : Int} {m e : Nat} (hk : k.natAbs = m * pow2 e) (hm : m < pow2 53)
    (he : e ≤ 2044) : (ofUnits (decide (k < 0)) k.natAbs 1).units? = some k := by
  obtain ⟨rank, bounded, heq, hunits⟩ := ofUnits_mul (decide (k < 0)) hm he
  rw [hk, heq, units?, hunits, ← hk]
  split
  · rename_i hnegative
    rw [decide_eq_true_eq] at hnegative
    rw [show -(k.natAbs : Int) = k by omega]
  · rename_i hnonnegative
    rw [decide_eq_true_eq] at hnonnegative
    rw [show (k.natAbs : Int) = k by omega]

theorem units?_zero (negative : Bool) : (ofRank negative 0).units? = some 0 := by
  rw [ofRank_of_lt _ rank_zero_lt, units?, unitsOfRank_zero]
  split <;> rfl

/-- A sum of at most 53 bits is exact. -/
theorem units?_add {x y : Binary64} {u v : Int} (hx : x.units? = some u) (hy : y.units? = some v)
    {m e : Nat} (hsum : (u + v).natAbs = m * pow2 e) (hm : m < pow2 53) (he : e ≤ 2044) :
    (add x y).units? = some (u + v) := by
  cases x with
  | finite s rank bounded =>
    cases y with
    | finite t rank' bounded' =>
      rw [add, hx, hy, Option.getD_some, Option.getD_some]
      split
      · rename_i hzero
        rw [hzero, units?_zero]
      · exact units?_ofUnits hsum hm he
    | nan => cases hy
    | infinite t => cases hy
  | nan => cases hx
  | infinite s => cases hx

theorem ofInt?_small {n : Nat} (h : n < pow2 53) :
    ∃ y, ofInt? n = some y ∧ y.units? = some ((n * unitsPerOne : Nat) : Int) := by
  obtain ⟨rank, bounded, heq, hunits⟩ := ofUnits_mul false (e := 1074) h (by decide)
  refine ⟨.finite false rank bounded, ?_, ?_⟩
  · have hsign : decide ((n : Int) < 0) = false := by simp
    rw [ofInt?, hsign, Int.natAbs_natCast, unitsPerOne, heq]
    rfl
  · rw [units?, hunits]
    rfl

end Binary64

/-! ### Differences -/

namespace Number

/-- The value in units of the least binary64 number; none if it is not finite. -/
def units? : Number → Option Int
  | .whole n => some (n * Binary64.unitsPerOne)
  | .real x => x.units?

/-- The difference with a whole number is not rounded. -/
def SubExact (t : Number) (n : Int) : Prop :=
  ∃ d u, t.sub (.whole n) = .ok d ∧ t.units? = some u ∧
    d.units? = some (u - n * Binary64.unitsPerOne)

theorem units_pos : (0 : Int) < Binary64.unitsPerOne :=
  Int.natCast_pos.mpr Binary64.unitsPerOne_pos

theorem compareInt?_eq {x : Binary64} {u : Int} (h : x.units? = some u) (n : Int) :
    x.compareInt? n = some (compare u (n * Binary64.unitsPerOne)) := by
  cases x with
  | finite negative rank bounded => rw [Binary64.compareInt?, h, Option.getD_some]
  | nan => cases h
  | infinite negative => cases h

theorem atLeast_iff {d : Number} {u : Int} (h : d.units? = some u) (n : Int) :
    d.atLeast n = true ↔ n * Binary64.unitsPerOne ≤ u := by
  cases d with
  | whole m =>
    rw [units?, Option.some.injEq] at h
    rw [atLeast, decide_eq_true_eq, ← h, Int.mul_le_mul_right units_pos]
  | real x =>
    rw [atLeast, compareInt?_eq h]
    cases horder : compare u (n * Binary64.unitsPerOne) with
    | lt => exact iff_of_false (by simp) (Int.not_le.mpr (Int.compare_eq_lt.mp horder))
    | eq => exact iff_of_true rfl (Int.le_of_eq (Int.compare_eq_eq.mp horder).symm)
    | gt => exact iff_of_true rfl (Int.le_of_lt (Int.compare_eq_gt.mp horder))

theorem lt_whole_iff {t : Number} {u : Int} (h : t.units? = some u) (n : Int) :
    t.lt (.whole n) = true ↔ u < n * Binary64.unitsPerOne := by
  cases t with
  | whole m =>
    rw [units?, Option.some.injEq] at h
    rw [lt, decide_eq_true_eq, ← h, Int.mul_lt_mul_right units_pos]
  | real x =>
    rw [lt, compareInt?_eq h, beq_iff_eq, Option.some.injEq, Int.compare_eq_lt]

theorem subExact_whole (m n : Int) : SubExact (.whole m) n :=
  ⟨_, _, rfl, rfl, by rw [units?, Int.sub_mul]⟩

theorem sub_real {x y : Binary64} {n : Int} (h : Binary64.ofInt? n = some y) :
    (real x).sub (.whole n) = .ok (.real (x.sub y)) := by
  rw [sub, toReal, toReal, h]
  · rfl
  · intro m n hreal
    cases hreal

theorem normal_of_units {x : Binary64} {u : Nat} (h : x.units? = some (u : Int)) :
    ∃ significand doublings, Binary64.Normal significand doublings ∧
      u = significand * pow2 doublings := by
  cases x with
  | finite negative rank bounded =>
    rw [Binary64.units?, Option.some.injEq] at h
    obtain ⟨significand, doublings, hnormal, rfl⟩ := Binary64.exists_normal rank
    rw [hnormal.units] at h
    refine ⟨significand, doublings, hnormal, ?_⟩
    generalize significand * pow2 doublings = k at h
    split at h <;> omega
  | nan => cases h
  | infinite negative => cases h

/-- Below 2⁵³ a number that is not less than a whole number is at an exact distance from it. -/
theorem subExact_real {x : Binary64} {u : Nat} (hx : x.units? = some (u : Int))
    (hbound : u < pow2 53 * Binary64.unitsPerOne) {n : Nat} (hn : n * Binary64.unitsPerOne ≤ u) :
    SubExact (.real x) n := by
  obtain ⟨significand, doublings, hnormal, rfl⟩ := normal_of_units hx
  have hdoublings : doublings ≤ 1074 := by
    rcases hnormal.full with hzero | hfull
    · omega
    · refine Nat.not_lt.mp fun hlarge => Nat.not_le.mpr hbound ?_
      rw [Binary64.unitsPerOne, ← pow2_add]
      calc pow2 (53 + 1074) ≤ pow2 (52 + doublings) := pow2_le (by omega)
        _ = pow2 52 * pow2 doublings := pow2_add _ _
        _ ≤ significand * pow2 doublings := Nat.mul_le_mul_right _ hfull
  have hsteps : n * Binary64.unitsPerOne = n * pow2 (1074 - doublings) * pow2 doublings := by
    rw [Nat.mul_assoc, ← pow2_add, Nat.sub_add_cancel hdoublings, Binary64.unitsPerOne]
  have hsmall : n < pow2 53 :=
    Nat.lt_of_mul_lt_mul_right (Nat.lt_of_le_of_lt hn hbound)
  obtain ⟨y, hy, hunits⟩ := Binary64.ofInt?_small hsmall
  have hdistance : ((significand * pow2 doublings : Nat) + -((n * Binary64.unitsPerOne : Nat) : Int)
      : Int).natAbs = (significand - n * pow2 (1074 - doublings)) * pow2 doublings := by
    rw [Nat.sub_mul, ← hsteps]
    omega
  have hfits : significand - n * pow2 (1074 - doublings) < pow2 53 :=
    Nat.lt_of_le_of_lt (Nat.sub_le _ _) hnormal.lt
  have hadd := Binary64.units?_add hx (Binary64.units?_neg hunits) hdistance hfits (by omega)
  refine ⟨_, _, sub_real hy, hx, hadd.trans ?_⟩
  rw [Int.natCast_mul n, ← Int.sub_eq_add_neg]

/-- A difference with a whole number fails only for a binary64 number and a whole number that is
too large to stand beside it. -/
theorem sub_whole_error_iff {t : Number} {n : Int} :
    (∃ cause, t.sub (.whole n) = .error cause) ↔
      (∃ x, t = .real x) ∧ Binary64.wholeLimit ≤ n.natAbs := by
  rw [← Binary64.ofInt?_eq_none_iff]
  cases t with
  | whole m =>
    refine iff_of_false ?_ ?_
    · rintro ⟨cause, h⟩
      cases h
    · rintro ⟨⟨x, h⟩, -⟩
      cases h
  | real x =>
    cases hround : Binary64.ofInt? n with
    | none =>
      refine iff_of_true ⟨.tooLargeForReal, ?_⟩ ⟨⟨x, rfl⟩, rfl⟩
      rw [sub, toReal, toReal, hround]
      · rfl
      · intro m n hreal
        cases hreal
    | some y =>
      refine iff_of_false ?_ fun h => by cases h.2
      rintro ⟨cause, h⟩
      rw [sub_real hround] at h
      cases h

theorem truncate?_of_units {x : Binary64} {u : Int} (h : x.units? = some u) :
    x.truncate? = some (u.tdiv Binary64.unitsPerOne) := by
  cases x with
  | finite negative rank bounded =>
    rw [Binary64.units?, Option.some.injEq] at h
    rw [Binary64.truncate?, ← h]
    cases negative with
    | false => rfl
    | true => simp only [if_true, Int.neg_tdiv]; rfl
  | nan => cases h
  | infinite negative => cases h

/-- Cutting a number is cutting its value. -/
theorem truncate_of_units {t : Number} {u : Int} (h : t.units? = some u) :
    t.truncate = .ok (u.tdiv Binary64.unitsPerOne) := by
  cases t with
  | whole n =>
    rw [units?, Option.some.injEq] at h
    rw [truncate, ← h, Int.mul_tdiv_cancel _ (Int.ne_of_gt units_pos)]
  | real x =>
    rw [truncate, truncate?_of_units h]
    rintro ⟨⟩
    cases h

end Number

end AdminConsole
