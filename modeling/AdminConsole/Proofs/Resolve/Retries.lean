import AdminConsole.Proofs.Number.Doubling
import AdminConsole.Proofs.Resolve.InSequence
import AdminConsole.Proofs.Resolve.LevelByLevel

/-!
Repeated requests. A query asks until an outcome is not transient or the attempts are used up, and
its pauses double each time. What it leaves behind depends only on the outcomes in their order. The
length of a pause can always be computed if the first is a whole number; if it is a real number, only
the first 1024 can.
-/

namespace AdminConsole

/-- The state of a source after a number of requests for one code. -/
def Source.after {σ : Type} (source : Source σ) (code : String) (s : σ) : Nat → σ
  | 0 => s
  | n + 1 => (source code (source.after code s n)).2

/-- What comes of the request for a code after a number of earlier ones. -/
def Source.outcome {σ : Type} (source : Source σ) (code : String) (s : σ) (n : Nat) :
    Except Fault (List Node) :=
  (source code (source.after code s n)).1.outcome

/-- A report with a query that repeated some requests and ended on this outcome. -/
def Report.queried (r : Report) (code : String) (repeated : Nat) :
    Except Fault (List Node) → Report
  | .ok _ => { r with retried := r.retried + repeated, fetched := r.fetched + 1 }
  | .error (.fetch e) =>
    { r with
      retried := r.retried + repeated
      failed := Entries.put code e.message r.failed }
  | .error _ => { r with retried := r.retried + repeated }

theorem Report.queried_retried (r : Report) (code : String) (n : Nat)
    (outcome : Except Fault (List Node)) :
    ({ r with retried := r.retried + n } : Report).queried code 0 outcome =
      r.queried code n outcome := by
  cases outcome with
  | ok nodes => rfl
  | error fault => cases fault <;> rfl

namespace Resolve

variable {σ : Type} {t : Tuning} {source : Source σ} {code : String} {failures : Nat}
  {outcome : Except Fault (List Node)}

/-- Only such an outcome is worth another request. -/
def Transient (outcome : Except Fault (List Node)) : Prop :=
  ∃ e, outcome = .error (.fetch e) ∧ e.isTransient = true

/-- The request with this many before it is the last of a query: the first whose outcome is not
transient, or the one that uses up the attempts. -/
structure IsLast (t : Tuning) (outcomes : Nat → Except Fault (List Node)) (n : Nat) : Prop where
  repeated : ∀ i < n, Transient (outcomes i)
  within : n < t.maxAttempts
  ends : n + 1 = t.maxAttempts ∨ ¬Transient (outcomes n)

/-- Every query has a last request. -/
theorem exists_isLast (t : Tuning) (outcomes : Nat → Except Fault (List Node)) :
    ∃ n, IsLast t outcomes n := by
  -- From a request with only transient outcomes before it, by the number of attempts that are left.
  have hfrom : ∀ left n, n + left + 1 = t.maxAttempts → (∀ i < n, Transient (outcomes i)) →
      ∃ n, IsLast t outcomes n := by
    intro left
    induction left with
    | zero => exact fun n hused hrepeated => ⟨n, hrepeated, by omega, .inl hused⟩
    | succ left ih =>
      intro n hleft hrepeated
      by_cases htransient : Transient (outcomes n)
      · refine ih (n + 1) (by omega) fun i hi => ?_
        rcases Nat.lt_succ_iff_lt_or_eq.mp hi with hi | rfl
        · exact hrepeated i hi
        · exact htransient
      · exact ⟨n, hrepeated, by omega, .inr htransient⟩
  have hpos := t.attempts_pos
  exact hfrom (t.maxAttempts - 1) 0 (by omega) fun i hi => absurd hi (Nat.not_lt_zero i)

/-- How a query ends on the outcome of its last request. -/
def ending : Except Fault (List Node) → Except Stop Settled
  | .ok nodes => .ok (.ok nodes)
  | .error (.fetch e) => .ok (.error e)
  | .error fault => .error (.fault fault)

/-! ### Judged outcomes -/

theorem judge_transient (h : Transient outcome) (hleft : failures + 1 < t.maxAttempts) :
    t.judge failures outcome = .again := by
  obtain ⟨e, rfl, htransient⟩ := h
  simp [Tuning.judge, htransient, hleft]

theorem judge_fetch {e : FetchError}
    (h : failures + 1 = t.maxAttempts ∨ ¬Transient (.error (.fetch e))) :
    t.judge failures (.error (.fetch e)) = .settled (.error e) := by
  have hstop : ¬(e.isTransient = true ∧ failures + 1 < t.maxAttempts) := by
    rintro ⟨htransient, hleft⟩
    rcases h with hused | hlast
    · omega
    · exact hlast ⟨e, rfl, htransient⟩
  simpa [Tuning.judge] using hstop

/-! ### Requests that are repeated -/

namespace Pass

/-- A pass after some requests for one code that were each repeated, with pauses of these lengths. -/
def repeated (source : Source σ) (code : String) (lengths : Nat → Number) (p : Pass σ) :
    Nat → Pass σ
  | 0 => p
  | n + 1 =>
    ((p.repeated source code lengths n).answered source code).retry.pause
      (if (lengths n).isZero then none else some (lengths n))

variable (source : Source σ) (code : String) (lengths : Nat → Number) (p : Pass σ)

theorem repeated_source (n : Nat) :
    (p.repeated source code lengths n).source = source.after code p.source n := by
  induction n with
  | zero => rfl
  | succ n ih => simp only [repeated, pause_source, retry, answered, ih, Source.after]

theorem repeated_log (n : Nat) : (p.repeated source code lengths n).log =
    p.log ++ (List.range n).map fun i => ⟨code, source.outcome code p.source i⟩ := by
  induction n with
  | zero => exact (List.append_nil _).symm
  | succ n ih =>
    simp only [repeated, pause_log, retry, answered, ih, repeated_source, List.range_succ,
      List.map_append, List.map_cons, List.map_nil, List.append_assoc, Source.outcome]

theorem repeated_report (n : Nat) : (p.repeated source code lengths n).report =
    { p.report with retried := p.report.retried + n } := by
  induction n with
  | zero => rfl
  | succ n ih => simp only [repeated, pause_report, retry, answered, ih, Report.retry, Nat.add_assoc]

theorem pause_pauses (p : Pass σ) (length : Number) :
    (p.pause (if length.isZero then none else some length)).pauses =
      p.pauses ++ [length].filter fun length => !length.isZero := by
  cases h : length.isZero <;> simp [pause, h]

theorem repeated_pauses (n : Nat) : (p.repeated source code lengths n).pauses =
    p.pauses ++ ((List.range n).map lengths).filter fun length => !length.isZero := by
  induction n with
  | zero => exact (List.append_nil _).symm
  | succ n ih =>
    simp only [repeated, pause_pauses, retry, answered, ih, List.range_succ, List.map_append,
      List.map_cons, List.map_nil, List.filter_append, List.append_assoc]

end Pass

/-- Requests that are repeated, one after another. -/
theorem attempt_repeated {lengths : Nat → Number} {p : Pass σ} {n : Nat}
    (hrepeated : ∀ i < n, Transient (source.outcome code p.source i)) (hwithin : n < t.maxAttempts)
    (hlengths : ∀ i < n, t.backoff.mul (.whole (pow2 i)) = .ok (lengths i)) :
    attempt t source code 0 p = attempt t source code n (p.repeated source code lengths n) := by
  induction n with
  | zero => rfl
  | succ n ih =>
    have hbefore := ih (fun i hi => hrepeated i (Nat.lt_succ_of_lt hi)) (Nat.lt_of_succ_lt hwithin)
      fun i hi => hlengths i (Nat.lt_succ_of_lt hi)
    have hjudge := judge_transient (hrepeated n (Nat.lt_succ_self n)) hwithin
    rw [Source.outcome, ← p.repeated_source source code lengths] at hjudge
    rw [hbefore, attempt_of_again hjudge,
      Tuning.pauseAfter_eq (hlengths n (Nat.lt_succ_self n))]
    rfl

/-- The last request of a query decides how it ends. -/
theorem attempt_last {p : Pass σ}
    (houtcome : (source code p.source).1.outcome = outcome)
    (h : failures + 1 = t.maxAttempts ∨ ¬Transient outcome) :
    attempt t source code failures p =
      (ending outcome,
        { p.answered source code with report := p.report.queried code 0 outcome }) := by
  cases outcome with
  | ok nodes =>
    have hjudge : t.judge failures (source code p.source).1.outcome = .settled (.ok nodes) := by
      rw [houtcome]
      rfl
    rw [attempt_of_settled hjudge]
    rfl
  | error fault =>
    by_cases hfetch : ∃ e, fault = .fetch e
    · obtain ⟨e, rfl⟩ := hfetch
      have hjudge := judge_fetch h
      rw [← houtcome] at hjudge
      rw [attempt_of_settled hjudge]
      rfl
    · rw [not_exists] at hfetch
      have hjudge := judge_of_fault (t := t) hfetch failures
      rw [← houtcome] at hjudge
      rw [attempt_of_broken hjudge]
      cases fault with
      | fetch e => exact absurd rfl (hfetch e)
      | _ => rfl

/-- The lengths of the pauses after the first requests: the backoff, doubled each time. -/
def Doubles (t : Tuning) (n : Nat) (lengths : Nat → Number) : Prop :=
  ∀ i < n, t.backoff.mul (.whole (pow2 i)) = .ok (lengths i) ∧ t.backoff.IsDoubled i (lengths i)

/-- Some requests for one code with a pause after each, and one more: the state they leave of the
source, the requests, and the pauses. There is no pause where its length is zero. -/
structure Requests (t : Tuning) (source : Source σ) (code : String) (n : Nat)
    (before after : Pass σ) : Prop where
  state : after.source = source.after code before.source (n + 1)
  log : after.log = before.log ++
    (List.range (n + 1)).map fun i => ⟨code, source.outcome code before.source i⟩
  pauses : ∃ lengths : Nat → Number, Doubles t n lengths ∧ after.pauses = before.pauses ++
    ((List.range n).map lengths).filter fun length => !length.isZero

theorem exists_doubles {n : Nat} (h : (∃ b, t.backoff = .whole b) ∨ n ≤ 1024) :
    ∃ lengths, Doubles t n lengths := by
  have hlength : ∀ i, ∃ length, i < n →
      t.backoff.mul (.whole (pow2 i)) = .ok length ∧ t.backoff.IsDoubled i length := by
    intro i
    by_cases hi : i < n
    · obtain ⟨length, hlength⟩ := Number.exists_mul_pow2 (k := i)
        (h.imp_right fun hfew => Nat.lt_of_lt_of_le hi hfew)
      exact ⟨length, fun _ => hlength⟩
    · exact ⟨.whole 0, fun h => absurd h hi⟩
  exact ⟨fun i => (hlength i).choose, fun i => (hlength i).choose_spec⟩

theorem requests_answered {p p' : Pass σ} {n : Nat} {lengths : Nat → Number}
    (hdoubles : Doubles t n lengths)
    (hsource : p'.source = ((p.repeated source code lengths n).answered source code).source)
    (hlog : p'.log = ((p.repeated source code lengths n).answered source code).log)
    (hpauses : p'.pauses = (p.repeated source code lengths n).pauses) :
    Requests t source code n p p' := by
  -- But for its pause, the request leaves the same as if it were repeated too.
  have hstate := p.repeated_source source code lengths (n + 1)
  have hasked := p.repeated_log source code lengths (n + 1)
  rw [Pass.repeated, Pass.pause_source] at hstate
  rw [Pass.repeated, Pass.pause_log] at hasked
  exact ⟨hsource.trans hstate, hlog.trans hasked, lengths, hdoubles,
    hpauses.trans (p.repeated_pauses source code lengths n)⟩

theorem attempt_within {p : Pass σ} {n : Nat} (hlast : IsLast t (source.outcome code p.source) n)
    (hlengths : (∃ b, t.backoff = .whole b) ∨ n ≤ 1024) :
    Requests t source code n p (attempt t source code 0 p).2 ∧
      (attempt t source code 0 p).2.report =
        p.report.queried code n (source.outcome code p.source n) ∧
      (attempt t source code 0 p).1 = ending (source.outcome code p.source n) := by
  obtain ⟨lengths, hdoubles⟩ := exists_doubles hlengths
  have houtcome : (source code (p.repeated source code lengths n).source).1.outcome =
      source.outcome code p.source n := by
    rw [p.repeated_source, Source.outcome]
  rw [attempt_repeated hlast.repeated hlast.within fun i hi => (hdoubles i hi).1,
    attempt_last houtcome hlast.ends]
  refine ⟨requests_answered hdoubles rfl rfl rfl, ?_, rfl⟩
  rw [Pass.repeated_report, Report.queried_retried]

theorem attempt_beyond {p : Pass σ} {x : Binary64} (hbackoff : t.backoff = .real x)
    (hrepeated : ∀ i < 1025, Transient (source.outcome code p.source i))
    (hwithin : 1025 < t.maxAttempts) :
    Requests t source code 1024 p (attempt t source code 0 p).2 ∧
      (attempt t source code 0 p).2.report =
        { p.report with retried := p.report.retried + 1025 } ∧
      (attempt t source code 0 p).1 = .error (.fault (.number .tooLargeForReal)) := by
  obtain ⟨lengths, hdoubles⟩ := exists_doubles (t := t) (n := 1024) (.inr (Nat.le_refl 1024))
  have hjudge := judge_transient (hrepeated 1024 (by decide)) hwithin
  rw [Source.outcome, ← p.repeated_source source code lengths] at hjudge
  have hpause : t.pauseAfter 1024 = .error .tooLargeForReal := by
    rw [Tuning.pauseAfter, hbackoff, Number.mul_pow2_error x (Nat.le_refl 1024)]
    rfl
  rw [attempt_repeated (fun i hi => hrepeated i (Nat.lt_succ_of_lt hi))
    (Nat.lt_of_succ_lt hwithin) fun i hi => (hdoubles i hi).1, attempt_of_again hjudge, hpause]
  refine ⟨requests_answered hdoubles rfl rfl rfl, ?_, rfl⟩
  simp only [Pass.answered, Pass.retry, Pass.repeated_report, Report.retry, Nat.add_assoc]

/-- A query asks until its last request and ends on the outcome of that one. Only if the backoff is a
real number and more than 1025 requests are needed, it breaks off after 1025. -/
theorem attempt_retries (t : Tuning) (source : Source σ) (code : String) (p : Pass σ) :
    ∃ n, IsLast t (source.outcome code p.source) n ∧
      (((∃ b, t.backoff = .whole b) ∨ n ≤ 1024) ∧
          Requests t source code n p (attempt t source code 0 p).2 ∧
          (attempt t source code 0 p).2.report =
            p.report.queried code n (source.outcome code p.source n) ∧
          (attempt t source code 0 p).1 = ending (source.outcome code p.source n) ∨
        ((∃ x, t.backoff = .real x) ∧ 1024 < n) ∧
          Requests t source code 1024 p (attempt t source code 0 p).2 ∧
          (attempt t source code 0 p).2.report =
            { p.report with retried := p.report.retried + 1025 } ∧
          (attempt t source code 0 p).1 = .error (.fault (.number .tooLargeForReal))) := by
  obtain ⟨n, hlast⟩ := exists_isLast t (source.outcome code p.source)
  refine ⟨n, hlast, ?_⟩
  cases hbackoff : t.backoff with
  | whole b => exact .inl ⟨.inl ⟨b, rfl⟩, attempt_within hlast (.inl ⟨b, hbackoff⟩)⟩
  | real x =>
    by_cases hfew : n ≤ 1024
    · exact .inl ⟨.inr hfew, attempt_within hlast (.inr hfew)⟩
    · rw [Nat.not_le] at hfew
      have hrepeated : ∀ i < 1025, Transient (source.outcome code p.source i) :=
        fun i hi => hlast.repeated i (Nat.lt_of_lt_of_le hi hfew)
      have hwithin : 1025 < t.maxAttempts := Nat.lt_of_le_of_lt hfew hlast.within
      exact .inr ⟨⟨⟨x, rfl⟩, hfew⟩, attempt_beyond hbackoff hrepeated hwithin⟩

/-- More attempts than there are pauses whose lengths can be computed, though all are zero. -/
def patient : Tuning :=
  { twice with maxAttempts := 1026, backoff := .real .zero, attempts_pos := by decide }

def alwaysBusy : Script := [("0", [busy])]

theorem outcome_alwaysBusy (n : Nat) : Script.source.outcome "0" alwaysBusy n =
    .error (.fetch ⟨.transient, .reported "busy", some "0", none⟩) := by
  have hafter : Script.source.after "0" alwaysBusy n = alwaysBusy := by
    induction n with
    | zero => rfl
    | succ n ih =>
      rw [Source.after, ih]
      rfl
  rw [Source.outcome, hafter]
  rfl

/-- The query needs 1026 requests, and the error of the last one never comes out of it. -/
theorem attempt_breaksOff : IsLast patient (Script.source.outcome "0" alwaysBusy) 1025 ∧
    (attempt patient Script.source "0" 0 (.start alwaysBusy)).2.log.length = 1025 ∧
    (attempt patient Script.source "0" 0 (.start alwaysBusy)).1 =
      .error (.fault (.number .tooLargeForReal)) := by
  have htransient : ∀ i, Transient (Script.source.outcome "0" alwaysBusy i) :=
    fun i => ⟨_, outcome_alwaysBusy i, rfl⟩
  have hbackoff : patient.backoff = .real .zero := rfl
  obtain ⟨hrequests, -, hresult⟩ := attempt_beyond hbackoff (p := .start alwaysBusy)
    (fun i _ => htransient i) (by decide)
  refine ⟨⟨fun i _ => htransient i, by decide, .inl rfl⟩, ?_, hresult⟩
  rw [hrequests.log, List.length_append, List.length_map, List.length_range]
  rfl

end Resolve

end AdminConsole
