import AdminConsole.Proofs.Number.Order
import AdminConsole.Proofs.Settings.Reading

/-!
Which settings are accepted. The rules on numbers are looked at when every field has been read, one
after the other, each as the comparison that it forbids. No comparison holds of what is no number,
so a delay or a timeout that is NaN passes.
-/

namespace AdminConsole.Settings

/-! ### The rules on numbers -/

/-- No number is out of its range; what is no number is in every range. -/
structure Accepted (s : Settings) : Prop where
  attempts : 1 ≤ s.maxAttempts
  concurrency : 1 ≤ s.maxConcurrency
  stagger : s.stagger.isNan = true ∨ .zero ≤ s.stagger
  backoff : s.backoff.isNan = true ∨ .zero ≤ s.backoff
  timeout : s.requestTimeout.isNan = true ∨ Binary64.zero.lt s.requestTimeout = true

/-- The first rule that is broken: those before it hold. -/
inductive Breaks (s : Settings) : Refused → Prop where
  | attempts (h : s.maxAttempts < 1) : Breaks s .attempts
  | concurrency (attempts : 1 ≤ s.maxAttempts) (h : s.maxConcurrency < 1) : Breaks s .concurrency
  | delays (attempts : 1 ≤ s.maxAttempts) (concurrency : 1 ≤ s.maxConcurrency)
      (h : s.stagger.lt .zero = true ∨ s.backoff.lt .zero = true) : Breaks s .delays
  | timeout (attempts : 1 ≤ s.maxAttempts) (concurrency : 1 ≤ s.maxConcurrency)
      (stagger : s.stagger.lt .zero = false) (backoff : s.backoff.lt .zero = false)
      (h : s.requestTimeout.lt .zero = true ∨ s.requestTimeout.isZero = true) : Breaks s .timeout

section Rules

variable {s : Settings} {cause : Refused}

theorem broken?_eq_none_iff : s.broken? = none ↔ Accepted s := by
  unfold broken? isBelowZero
  constructor
  · intro h
    split at h
    · cases h
    split at h
    · cases h
    split at h
    · cases h
    split at h
    · cases h
    rename_i hattempts hconcurrency hdelays htimeout
    rw [Bool.not_eq_true, Bool.or_eq_false_iff] at hdelays
    rw [Bool.not_eq_true] at htimeout
    exact ⟨Int.not_lt.mp hattempts, Int.not_lt.mp hconcurrency,
      Binary64.lt_zero_eq_false_iff.mp hdelays.1, Binary64.lt_zero_eq_false_iff.mp hdelays.2,
      Binary64.lt_or_isZero_eq_false_iff.mp htimeout⟩
  · intro h
    have hstagger := Binary64.lt_zero_eq_false_iff.mpr h.stagger
    have hbackoff := Binary64.lt_zero_eq_false_iff.mpr h.backoff
    have htimeout := Binary64.lt_or_isZero_eq_false_iff.mpr h.timeout
    rw [if_neg (Int.not_lt.mpr h.attempts), if_neg (Int.not_lt.mpr h.concurrency), hstagger,
      hbackoff, htimeout]
    rfl

theorem broken?_eq_some_iff : s.broken? = some cause ↔ Breaks s cause := by
  unfold broken? isBelowZero
  constructor
  · intro h
    split at h
    · cases h
      exact .attempts (by assumption)
    rename_i hattempts
    have hattempts := Int.not_lt.mp hattempts
    split at h
    · cases h
      exact .concurrency hattempts (by assumption)
    rename_i hconcurrency
    have hconcurrency := Int.not_lt.mp hconcurrency
    split at h
    · rename_i hdelays
      cases h
      exact .delays hattempts hconcurrency ((Bool.or_eq_true _ _).mp hdelays)
    rename_i hdelays
    rw [Bool.not_eq_true, Bool.or_eq_false_iff] at hdelays
    split at h
    · rename_i htimeout
      cases h
      exact .timeout hattempts hconcurrency hdelays.1 hdelays.2
        ((Bool.or_eq_true _ _).mp htimeout)
    · cases h
  · intro h
    cases h with
    | attempts h => rw [if_pos h]
    | concurrency hattempts h => rw [if_neg (Int.not_lt.mpr hattempts), if_pos h]
    | delays hattempts hconcurrency h =>
      rw [if_neg (Int.not_lt.mpr hattempts), if_neg (Int.not_lt.mpr hconcurrency),
        if_pos ((Bool.or_eq_true _ _).mpr h)]
    | timeout hattempts hconcurrency hstagger hbackoff h =>
      rw [if_neg (Int.not_lt.mpr hattempts), if_neg (Int.not_lt.mpr hconcurrency),
        if_neg (by simp [hstagger, hbackoff]), if_pos ((Bool.or_eq_true _ _).mpr h)]

/-- NaN is accepted in the place of a number. -/
theorem Accepted.nan_timeout (h : Accepted s) : Accepted { s with requestTimeout := .nan } :=
  ⟨h.attempts, h.concurrency, h.stagger, h.backoff, .inl rfl⟩

theorem Accepted.nan_delays (h : Accepted s) :
    Accepted { s with stagger := .nan, backoff := .nan } :=
  ⟨h.attempts, h.concurrency, .inl rfl, .inl rfl, h.timeout⟩

/-- Accepted settings can be used to tune a pass as they are. -/
theorem Accepted.tuning (h : Accepted s) : ∃ t, s.tuning none none none none = .ok t ∧
    t.maxAttempts = s.maxAttempts ∧ t.maxConcurrency = s.maxConcurrency ∧
    t.stagger = .real s.stagger ∧ t.backoff = .real s.backoff := by
  have hattempts : 0 < s.maxAttempts.toNat := by have := h.attempts; omega
  have hconcurrency : 0 < s.maxConcurrency.toNat := by have := h.concurrency; omega
  refine ⟨⟨_, _, _, _, hattempts, hconcurrency⟩, ?_, ?_, ?_, rfl, rfl⟩
  · simp [Settings.tuning, Tuning.make, hattempts, hconcurrency]
  · exact Int.toNat_of_nonneg (by omega)
  · exact Int.toNat_of_nonneg (by omega)

end Rules

section Read

variable {arguments : Entries Json} {environment : Entries String}

theorem read_eq_ok_iff {s : Settings} : read arguments environment = .ok s ↔
    Parsed (given? arguments environment) s ∧ Accepted s := by
  unfold read
  rw [← ofFields_eq_fine_iff, ← broken?_eq_none_iff]
  cases ofFields (given? arguments environment) with
  | refused found => simp
  | fine t =>
    cases hbroken : t.broken? with
    | none =>
      simp only [hbroken, Except.ok.injEq, Checked.fine.injEq]
      constructor
      · rintro rfl
        exact ⟨rfl, hbroken⟩
      · exact And.left
    | some cause =>
      simp only [hbroken]
      refine iff_of_false nofun ?_
      rintro ⟨⟨rfl⟩, hnone⟩
      rw [hbroken] at hnone
      cases hnone

theorem read_eq_error_iff {issues : List Issue} : read arguments environment = .error issues ↔
    (issues ≠ [] ∧ issues = refusedFields (given? arguments environment)) ∨
      ∃ s cause, Parsed (given? arguments environment) s ∧ Breaks s cause ∧
        issues = [⟨none, cause⟩] := by
  unfold read
  rw [← issues_ofFields, ← ofFields_justified.eq_refused_iff]
  simp only [← ofFields_eq_fine_iff, ← broken?_eq_some_iff]
  cases ofFields (given? arguments environment) with
  | refused found => simp
  | fine s =>
    cases hbroken : s.broken? with
    | none => simp [hbroken]
    | some cause => simp [hbroken, eq_comm]

end Read

/-- Settings are made exactly if every field is read and no number is out of its range, where
what is no number is never out of range. Otherwise it is reported either which fields are refused
and why, or the first rule that the numbers break. -/
theorem read_outcome (arguments : Entries Json) (environment : Entries String) :
    (∀ s, read arguments environment = .ok s ↔
      Parsed (given? arguments environment) s ∧ Accepted s) ∧
    ∀ issues, read arguments environment = .error issues ↔
      (issues ≠ [] ∧ issues = refusedFields (given? arguments environment)) ∨
      ∃ s cause, Parsed (given? arguments environment) s ∧ Breaks s cause ∧
        issues = [⟨none, cause⟩] :=
  ⟨fun _ => read_eq_ok_iff, fun _ => read_eq_error_iff⟩

/-! ### Defaults, and values that are no numbers -/

/-- The settings where nothing is given. -/
def defaults : Settings where
  debug := false
  logLevel := "INFO"
  apiBaseUrl := "http://localhost:8080"
  requestTimeout := .ofDecimal false 10 0
  loginUrl := "/auth/login"
  tokenStore := .table
  tokenStoreUrl := none
  encodeStorage := true
  maxAttempts := 3
  stagger := .ofDecimal false 1 (-1)
  backoff := .ofDecimal false 2 (-1)
  maxConcurrency := 8

theorem accepted_defaults : Accepted defaults where
  attempts := by decide
  concurrency := by decide
  stagger := .inr ⟨rfl, by decide +kernel, by decide +kernel⟩
  backoff := .inr ⟨rfl, by decide +kernel, by decide +kernel⟩
  timeout := .inr (by decide +kernel)

theorem parsed_defaults {given : String → Option Json} (h : ∀ name, given name = none) :
    Parsed given defaults := by
  constructor <;> dsimp only [defaults]
  case tokenStore => exact .inl ⟨h _, rfl⟩
  all_goals exact reads_default (h _)

theorem read_nothing : read [] [] = .ok defaults :=
  read_eq_ok_iff.mpr ⟨parsed_defaults fun _ => rfl, accepted_defaults⟩

/-- A timeout that does not come after zero is accepted, and so are delays that do not come with
zero or after it, where they are no numbers. -/
theorem read_nan :
    (∃ s, read [] [("REQUEST_TIMEOUT", "nan")] = .ok s ∧
      Binary64.zero.lt s.requestTimeout = false) ∧
    ∃ s, read [] [("RESOLVE_STAGGER_SECONDS", "nan"), ("RESOLVE_BACKOFF_SECONDS", "nan")] =
        .ok s ∧ ¬ .zero ≤ s.stagger ∧ ¬ .zero ≤ s.backoff := by
  constructor
  · refine ⟨{ defaults with requestTimeout := .nan },
      read_eq_ok_iff.mpr ⟨?_, accepted_defaults.nan_timeout⟩, Binary64.lt_nan⟩
    constructor <;> dsimp only [defaults]
    case requestTimeout => exact reads_value rfl rfl
    case tokenStore => exact .inl ⟨rfl, rfl⟩
    all_goals exact reads_default rfl
  · refine ⟨{ defaults with stagger := .nan, backoff := .nan },
      read_eq_ok_iff.mpr ⟨?_, accepted_defaults.nan_delays⟩, Binary64.not_le_nan,
      Binary64.not_le_nan⟩
    constructor <;> dsimp only [defaults]
    case stagger => exact reads_value rfl rfl
    case backoff => exact reads_value rfl rfl
    case tokenStore => exact .inl ⟨rfl, rfl⟩
    all_goals exact reads_default rfl

end AdminConsole.Settings
