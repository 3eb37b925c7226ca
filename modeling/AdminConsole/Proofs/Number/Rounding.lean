import AdminConsole.Number.Shortest

/-!
Rounding to binary64. A rank is a significand of at most 53 bits with a number of doublings, and
the magnitude that has them is its own nearest one. What is nearest to a fraction depends on the
value of the fraction alone, so a decimal may move its point and keep its number.
-/

namespace AdminConsole

theorem pow10_add (a b : Nat) : pow10 (a + b) = pow10 a * pow10 b := Nat.pow_add 10 a b

theorem pow10_pos (n : Nat) : 0 < pow10 n := Nat.pow_pos (by decide)

theorem pow10_le {a b : Nat} (h : a ≤ b) : pow10 a ≤ pow10 b :=
  Nat.pow_le_pow_right (by decide) h

namespace Binary64

theorem unitsPerOne_pos : 0 < unitsPerOne := pow2_pos 1074

/-! ### Significand and doublings -/

/-- A significand that fills its 53 bits, unless nothing was doubled. -/
structure Normal (significand doublings : Nat) : Prop where
  lt : significand < pow2 53
  full : doublings = 0 ∨ pow2 52 ≤ significand

theorem exists_normal (rank : Nat) :
    ∃ significand doublings, Normal significand doublings ∧
      rank = doublings * pow2 52 + significand := by
  have htwice : pow2 53 = 2 * pow2 52 := pow2_add 1 52
  have hpos := pow2_pos 52
  have hdiv := Nat.div_add_mod rank (pow2 52)
  have hmod := Nat.mod_lt rank hpos
  generalize rank / pow2 52 = q at hdiv
  cases q with
  | zero => exact ⟨rank, 0, ⟨by omega, .inl rfl⟩, by simp⟩
  | succ doublings =>
    rw [Nat.mul_succ, Nat.mul_comm] at hdiv
    exact ⟨rank - doublings * pow2 52, doublings, ⟨by omega, .inr (by omega)⟩, by omega⟩

variable {significand doublings : Nat}

theorem Normal.units (h : Normal significand doublings) :
    unitsOfRank (doublings * pow2 52 + significand) = significand * pow2 doublings := by
  have htwice : pow2 53 = 2 * pow2 52 := pow2_add 1 52
  have hpos := pow2_pos 52
  have hlt := h.lt
  have hdoublings : (doublings * pow2 52 + significand) / pow2 52 - 1 = doublings := by
    rw [Nat.add_comm, Nat.add_mul_div_right _ _ hpos]
    have hquot : significand / pow2 52 < 2 := (Nat.div_lt_iff_lt_mul hpos).mpr (by omega)
    rcases h.full with hzero | hfull
    · omega
    · have hone := Nat.div_pos hfull hpos
      omega
  rw [unitsOfRank, hdoublings, Nat.add_sub_cancel_left]

theorem Normal.log2 (h : Normal significand doublings) :
    (significand * pow2 doublings).log2 - 52 = doublings := by
  have hlt := h.lt
  by_cases hzero : significand = 0
  · have hfull := h.full
    have hpos := pow2_pos 52
    have hnone : doublings = 0 := by omega
    subst hzero hnone
    rfl
  · have hsize : significand * pow2 doublings ≠ 0 :=
      Nat.mul_ne_zero hzero (Nat.ne_of_gt (pow2_pos doublings))
    have hbound : significand * pow2 doublings < pow2 (53 + doublings) := by
      rw [pow2_add]
      exact Nat.mul_lt_mul_of_pos_right hlt (pow2_pos doublings)
    have hupper := (Nat.log2_lt hsize).mpr hbound
    rcases h.full with hnone | hfull
    · omega
    · have hlower : pow2 (52 + doublings) ≤ significand * pow2 doublings := by
        rw [pow2_add]
        exact Nat.mul_le_mul_right _ hfull
      have hle : 52 + doublings ≤ (significand * pow2 doublings).log2 :=
        (Nat.le_log2 hsize).mpr hlower
      omega

theorem roundHalfEven_mul_self (n : Nat) {den : Nat} (h : 0 < den) :
    roundHalfEven (n * den) den = n := by
  simp only [roundHalfEven, Nat.mul_div_cancel _ h, Nat.mul_mod_left]
  rw [if_neg (by omega)]

theorem Normal.nearest (h : Normal significand doublings) :
    nearestRank (significand * pow2 doublings) 1 = doublings * pow2 52 + significand := by
  simp only [nearestRank, Nat.div_one, Nat.one_mul, h.log2]
  rw [roundHalfEven_mul_self _ (pow2_pos doublings)]

/-- A magnitude is the nearest one to its own units. -/
theorem nearestRank_unitsOfRank (rank : Nat) : nearestRank (unitsOfRank rank) 1 = rank := by
  obtain ⟨significand, doublings, hnormal, rfl⟩ := exists_normal rank
  rw [hnormal.units, hnormal.nearest]

/-! ### The value of a fraction -/

theorem roundHalfEven_scale (num den : Nat) {k : Nat} (h : 0 < k) :
    roundHalfEven (num * k) (den * k) = roundHalfEven num den := by
  have htwice : 2 * (num * k % (den * k)) = 2 * (num % den) * k := by
    rw [Nat.mul_mod_mul_right, Nat.mul_assoc]
  simp only [roundHalfEven, Nat.mul_div_mul_right num den h, htwice, Nat.mul_lt_mul_right h,
    Nat.mul_right_cancel_iff h]

theorem nearestRank_scale (num den : Nat) {k : Nat} (h : 0 < k) :
    nearestRank (num * k) (den * k) = nearestRank num den := by
  simp only [nearestRank, Nat.mul_div_mul_right num den h]
  rw [Nat.mul_right_comm den k, roundHalfEven_scale _ _ h]

/-- Equal fractions have the same nearest rank. -/
theorem nearestRank_congr {num den num' den' k k' : Nat} (h : 0 < k) (h' : 0 < k')
    (hnum : num * k = num' * k') (hden : den * k = den' * k') :
    nearestRank num den = nearestRank num' den' := by
  rw [← nearestRank_scale num den h, hnum, hden, nearestRank_scale num' den' h']

theorem nearestRank_small {num den : Nat} (h : 4 * num < den) : nearestRank num den = 0 := by
  have hfloor : num / den = 0 := Nat.div_eq_of_lt (by omega)
  have hmod : num % den = num := Nat.mod_eq_of_lt (by omega)
  have hone : den * pow2 0 = den := Nat.mul_one den
  simp only [nearestRank, hfloor, roundHalfEven, Nat.log2_zero, Nat.zero_sub, Nat.zero_mul, hone,
    hmod]
  rw [if_neg (by omega)]

theorem le_nearestRank {num doublings : Nat} (h : pow2 (52 + doublings) ≤ num) :
    (doublings + 1) * pow2 52 ≤ nearestRank num 1 := by
  have hpos := pow2_pos (52 + doublings)
  have hlog : 52 + doublings ≤ num.log2 := (Nat.le_log2 (by omega)).mpr h
  simp only [nearestRank, Nat.div_one, Nat.one_mul]
  generalize hd : num.log2 - 52 = d
  have hfull : pow2 52 ≤ num / pow2 d := by
    rw [Nat.le_div_iff_mul_le (pow2_pos d), ← pow2_add]
    exact Nat.le_trans (pow2_le (by omega)) (Nat.log2_self_le (by omega))
  have hround : num / pow2 d ≤ roundHalfEven num (pow2 d) := by
    simp only [roundHalfEven]
    split <;> omega
  calc (doublings + 1) * pow2 52 ≤ (d + 1) * pow2 52 := Nat.mul_le_mul_right _ (by omega)
    _ = d * pow2 52 + pow2 52 := Nat.succ_mul _ _
    _ ≤ d * pow2 52 + roundHalfEven num (pow2 d) :=
      Nat.add_le_add_left (Nat.le_trans hfull hround) _

theorem ofRank_of_lt {rank : Nat} (negative : Bool) (h : rank < 2047 * pow2 52) :
    ofRank negative rank = .finite negative rank h := dif_pos h

theorem ofRank_of_le {rank : Nat} (negative : Bool) (h : 2047 * pow2 52 ≤ rank) :
    ofRank negative rank = .infinite negative := dif_neg (Nat.not_lt.mpr h)

/-! ### Decimals -/

/-- The rank nearest to `digits · 10 ^ exponent`. -/
def decimalRank (digits : Nat) (exponent : Int) : Nat :=
  nearestRank (digits * pow10 exponent.toNat * unitsPerOne) (pow10 (-exponent).toNat)

theorem pow2_le_pow10 : pow2 1024 ≤ pow10 311 := by decide +kernel

theorem pow2_mul_le_pow10 (n : Nat) : pow2 (3 * n) ≤ pow10 n := by
  induction n with
  | zero => exact Nat.le_refl 1
  | succ n ih =>
    rw [Nat.mul_succ, pow2_add, pow10_add]
    exact Nat.mul_le_mul ih (by decide)

theorem decimalRank_zero (exponent : Int) : decimalRank 0 exponent = 0 := by
  rw [decimalRank, Nat.zero_mul, Nat.zero_mul, nearestRank_small (pow10_pos _)]

theorem decimalRank_large {digits : Nat} {exponent : Int} (hdigits : digits ≠ 0)
    (h : 310 < exponent) : 2047 * pow2 52 ≤ decimalRank digits exponent := by
  have hzero : (-exponent).toNat = 0 := by omega
  have hsize : pow2 (52 + 2046) ≤ digits * pow10 exponent.toNat * unitsPerOne := by
    rw [show 52 + 2046 = 1024 + 1074 from rfl, pow2_add]
    apply Nat.mul_le_mul_right
    calc pow2 1024 ≤ pow10 311 := pow2_le_pow10
      _ ≤ pow10 exponent.toNat := pow10_le (by omega)
      _ ≤ digits * pow10 exponent.toNat := Nat.le_mul_of_pos_left _ (Nat.pos_of_ne_zero hdigits)
  rw [decimalRank, hzero]
  exact le_nearestRank hsize

theorem decimalRank_small {digits : Nat} {exponent : Int}
    (h : (digits.log2 : Int) + 1 + 3 * exponent < -1076) : decimalRank digits exponent = 0 := by
  have hzero : exponent.toNat = 0 := by omega
  generalize hn : (-exponent).toNat = n
  have hlog : digits.log2 + 1 + 1076 < 3 * n := by omega
  have hdigits : digits < pow2 (digits.log2 + 1) := Nat.lt_log2_self
  rw [decimalRank, hzero, hn]
  apply nearestRank_small
  have hscaled : digits * unitsPerOne < pow2 (digits.log2 + 1 + 1074) := by
    rw [pow2_add]
    exact Nat.mul_lt_mul_of_pos_right hdigits unitsPerOne_pos
  have hquad : pow2 2 * pow2 (digits.log2 + 1 + 1074) ≤ pow2 (3 * n) := by
    rw [← pow2_add]
    exact pow2_le (by omega)
  calc 4 * (digits * pow10 0 * unitsPerOne) = pow2 2 * (digits * unitsPerOne) := by
        rw [show pow10 0 = 1 from rfl, Nat.mul_one, show pow2 2 = 4 from rfl]
    _ < pow2 2 * pow2 (digits.log2 + 1 + 1074) :=
        Nat.mul_lt_mul_of_pos_left hscaled (pow2_pos 2)
    _ ≤ pow2 (3 * n) := hquad
    _ ≤ pow10 n := pow2_mul_le_pow10 n

/-- Deciding by size alone what is too large or too small changes nothing. -/
theorem ofDecimal_eq (negative : Bool) (digits : Nat) (exponent : Int) :
    ofDecimal negative digits exponent = ofRank negative (decimalRank digits exponent) := by
  unfold ofDecimal
  split
  · rename_i hdigits
    rw [hdigits, decimalRank_zero]
  · rename_i hdigits
    split
    · rename_i hlarge
      rw [ofRank_of_le _ (decimalRank_large hdigits hlarge)]
    · split
      · rename_i hsmall
        rw [decimalRank_small hsmall]
      · split
        · have hzero : (-exponent).toNat = 0 := by omega
          rw [ofUnits, decimalRank, hzero]
          rfl
        · have hzero : exponent.toNat = 0 := by omega
          rw [ofUnits, decimalRank, hzero, show pow10 0 = 1 from rfl, Nat.mul_one]

/-- Zeros behind the digits are worth as much as a larger exponent. -/
theorem decimalRank_shift (digits k : Nat) (exponent : Int) :
    decimalRank (digits * pow10 k) (exponent - k) = decimalRank digits exponent := by
  apply nearestRank_congr (pow10_pos (-exponent).toNat) (pow10_pos (-(exponent - k)).toNat)
  · have hsum : k + (exponent - k).toNat + (-exponent).toNat =
        exponent.toNat + (-(exponent - k)).toNat := by omega
    have hpow : pow10 k * pow10 (exponent - k).toNat * pow10 (-exponent).toNat =
        pow10 exponent.toNat * pow10 (-(exponent - k)).toNat := by
      rw [← pow10_add, ← pow10_add, ← pow10_add, hsum]
    rw [Nat.mul_assoc digits, Nat.mul_right_comm _ unitsPerOne, Nat.mul_assoc digits, hpow,
      ← Nat.mul_assoc, Nat.mul_right_comm _ _ unitsPerOne]
  · exact Nat.mul_comm _ _

theorem ofDecimal_shift (negative : Bool) (digits k : Nat) (exponent : Int) :
    ofDecimal negative (digits * pow10 k) (exponent - k) =
      ofDecimal negative digits exponent := by
  rw [ofDecimal_eq, ofDecimal_eq, decimalRank_shift]

/-! ### The shortest decimal -/

theorem Decimal.rank_strip (fuel : Nat) (d : Decimal) :
    decimalRank (d.strip fuel).digits (d.strip fuel).exponent =
      decimalRank d.digits d.exponent := by
  induction fuel generalizing d with
  | zero => rfl
  | succ fuel ih =>
    rw [Decimal.strip]
    split
    · rename_i htrailing
      have hdigits : d.digits / 10 * pow10 1 = d.digits :=
        Nat.div_mul_cancel (Nat.dvd_of_mod_eq_zero htrailing.2)
      have hshift := decimalRank_shift (d.digits / 10) 1 (d.exponent + 1)
      rw [hdigits, show d.exponent + 1 - ((1 : Nat) : Int) = d.exponent by omega] at hshift
      rw [ih, hshift]
    · rfl

/-- A magnitude of `n` binary places has `n` decimal places. -/
theorem nearestRank_expanded (rank n : Nat) :
    nearestRank (unitsOfRank rank * Nat.pow 5 n * pow10 0 * pow2 n) (pow10 n) = rank := by
  have hten : Nat.pow 5 n * pow2 n = pow10 n := (Nat.mul_pow 5 2 n).symm
  have hscale := nearestRank_scale (unitsOfRank rank) 1 (pow10_pos n)
  rwa [Nat.one_mul, nearestRank_unitsOfRank, ← hten, ← Nat.mul_assoc,
    ← Nat.mul_one (unitsOfRank rank * Nat.pow 5 n), hten] at hscale

theorem rank_exactDecimal (rank : Nat) :
    decimalRank (exactDecimal rank).digits (exactDecimal rank).exponent = rank :=
  nearestRank_expanded rank 1074

theorem rank_of_readsBack {rank : Nat} {d : Decimal} (hrank : rank < 2047 * pow2 52)
    (h : d.readsBack rank = true) : decimalRank d.digits d.exponent = rank := by
  rw [Decimal.readsBack, decide_eq_true_eq, ofDecimal_eq, ofRank_of_lt _ hrank, ofRank] at h
  split at h
  · exact (Binary64.finite.inj h).2
  · cases h

theorem rank_shortest {rank : Nat} (hrank : rank < 2047 * pow2 52) :
    decimalRank (shortest rank).digits (shortest rank).exponent = rank := by
  rw [shortest, Decimal.rank_strip]
  cases hfound : (candidates rank).find? (Decimal.readsBack rank) with
  | none => exact rank_exactDecimal rank
  | some d => exact rank_of_readsBack hrank (List.find?_some hfound)

/-- The shortest decimal reads back as the number that it was made for. -/
theorem ofDecimal_shortest (negative : Bool) {rank : Nat} (hrank : rank < 2047 * pow2 52) :
    ofDecimal negative (shortest rank).digits (shortest rank).exponent =
      .finite negative rank hrank := by
  rw [ofDecimal_eq, rank_shortest hrank, ofRank_of_lt negative hrank]

end Binary64

end AdminConsole
