import AdminConsole.Proofs.Resolve.Queries

/-!
Pauses. A pause is a product of numbers, and only sizes out of all proportion keep it from being
made. Tunings that make the same pauses, of whatever length, judge queries alike.
-/

namespace AdminConsole

/-- Tunings whose pauses can be made: before the queries of levels up to a width, and between the
attempts of a query. -/
structure Tuning.CanPause (width : Nat) (t : Tuning) : Prop where
  places : ∀ place < width, ∃ pause, t.pauseAt place = .ok pause
  failures : ∀ failures, failures + 1 < t.maxAttempts → ∃ pause, t.pauseAfter failures = .ok pause

namespace Tuning

theorem pauseAt_ok (t : Tuning) {place k : Nat} (h : place < pow2 k) (hk : k ≤ 1022) :
    ∃ pause, t.pauseAt place = .ok pause := by
  unfold pauseAt
  split
  · exact ⟨none, rfl⟩
  · obtain ⟨pause, hpause⟩ := t.stagger.mul_whole (n := place) h hk
    rw [hpause]
    exact ⟨some pause, rfl⟩

theorem pauseAfter_ok (t : Tuning) {failures : Nat} (h : failures < 1022) :
    ∃ pause, t.pauseAfter failures = .ok pause := by
  have hsize : (pow2 failures : Int).natAbs < pow2 (failures + 1) :=
    Nat.pow_lt_pow_succ (Nat.lt_succ_self 1)
  obtain ⟨pause, hpause⟩ := t.backoff.mul_whole hsize h
  rw [pauseAfter, hpause]
  exact ⟨_, rfl⟩

theorem pauseAfter_eq {t : Tuning} {failures : Nat} {length : Number}
    (h : t.backoff.mul (.whole (pow2 failures)) = .ok length) :
    t.pauseAfter failures = .ok (if length.isZero then none else some length) := by
  rw [pauseAfter, h]
  rfl

/-- Only sizes out of all proportion keep a pause from being made. -/
theorem canPause {t : Tuning} {width k : Nat} (hwidth : width ≤ pow2 k) (hk : k ≤ 1022)
    (hattempts : t.maxAttempts ≤ 1023) : t.CanPause width where
  places _ hplace := t.pauseAt_ok (Nat.lt_of_lt_of_le hplace hwidth) hk
  failures _ hleft := t.pauseAfter_ok (by omega)

theorem pauseAt_error {t : Tuning} {place : Nat} {cause : NumberError}
    (h : t.pauseAt place = .error cause) : cause = .tooLargeForReal := by
  unfold pauseAt at h
  split at h
  · cases h
  · cases hmul : t.stagger.mul (.whole place) with
    | error e =>
      rw [hmul] at h
      exact Except.error.inj h ▸ Number.mul_error hmul
    | ok pause =>
      rw [hmul] at h
      cases h

theorem pauseAfter_error {t : Tuning} {failures : Nat} {cause : NumberError}
    (h : t.pauseAfter failures = .error cause) : cause = .tooLargeForReal := by
  unfold pauseAfter at h
  cases hmul : t.backoff.mul (.whole (pow2 failures)) with
  | error e =>
    rw [hmul] at h
    exact Except.error.inj h ▸ Number.mul_error hmul
  | ok pause =>
    rw [hmul] at h
    cases h

/-- Tunings that try a query equally often and that can make the same pauses, of whatever length,
in levels up to a width. Every tuning is like itself. -/
structure Alike (width : Nat) (t t' : Tuning) : Prop where
  attempts : t.maxAttempts = t'.maxAttempts
  places : ∀ place < width,
    (∃ pause, t.pauseAt place = .ok pause) ↔ ∃ pause, t'.pauseAt place = .ok pause
  failures : ∀ failures, failures + 1 < t.maxAttempts →
    ((∃ pause, t.pauseAfter failures = .ok pause) ↔ ∃ pause, t'.pauseAfter failures = .ok pause)

theorem CanPause.mono {t : Tuning} {width width' : Nat} (h : t.CanPause width)
    (hle : width' ≤ width) : t.CanPause width' where
  places place hplace := h.places place (Nat.lt_of_lt_of_le hplace hle)
  failures := h.failures

theorem CanPause.alike {t t' : Tuning} {width : Nat} (h : t.CanPause width)
    (h' : t'.CanPause width) (hattempts : t.maxAttempts = t'.maxAttempts) : t.Alike width t' where
  attempts := hattempts
  places place hplace := iff_of_true (h.places place hplace) (h'.places place hplace)
  failures failures hleft :=
    iff_of_true (h.failures failures hleft) (h'.failures failures (hattempts ▸ hleft))

namespace Alike

open Resolve

variable {width : Nat} {t t' : Tuning}

theorem symm (h : t.Alike width t') : t'.Alike width t where
  attempts := h.attempts.symm
  places place hplace := (h.places place hplace).symm
  failures failures hleft := (h.failures failures (h.attempts ▸ hleft)).symm

theorem judge (h : t.Alike width t') (failures : Nat) (outcome : Except Fault (List Node)) :
    t.judge failures outcome = t'.judge failures outcome := by
  simp only [Tuning.judge, h.attempts]

theorem repeats (h : t.Alike width t') {failures : Nat} {outcome : Except Fault (List Node)} :
    Repeats t failures outcome ↔ Repeats t' failures outcome := by
  rw [Repeats, Repeats, ← h.judge]
  exact and_congr_right fun hagain => h.failures failures (attempts_left hagain)

theorem retried (h : t.Alike width t') {outcomes : List (Except Fault (List Node))}
    (hretried : Retried t' outcomes) : Retried t outcomes :=
  fun k outcome hk => h.repeats.mpr (hretried k outcome hk)

theorem settles (h : t.Alike width t') {outcomes : List (Except Fault (List Node))} {s : Settled}
    (hsettles : Settles t' outcomes s) : Settles t outcomes s := by
  obtain ⟨earlier, last, rfl, hretried, hjudge⟩ := hsettles
  exact ⟨earlier, last, rfl, h.retried hretried, by rwa [h.judge]⟩

end Alike

end Tuning

end AdminConsole
