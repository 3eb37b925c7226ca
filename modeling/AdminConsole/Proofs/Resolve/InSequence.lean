import AdminConsole.Proofs.Resolve.Queries

/-!
Settling a level one query after another. Each query makes its requests until one of them settles
it; the queries of a level follow each other, so the requests for a code stand together.
-/

namespace AdminConsole.Resolve

variable {σ : Type} {t : Tuning} {source : Source σ}

@[simp] theorem Pass.pause_source (p : Pass σ) (seconds : Option Number) :
    (p.pause seconds).source = p.source := by
  cases seconds <;> rfl

@[simp] theorem Pass.pause_log (p : Pass σ) (seconds : Option Number) :
    (p.pause seconds).log = p.log := by
  cases seconds <;> rfl

@[simp] theorem Pass.pause_report (p : Pass σ) (seconds : Option Number) :
    (p.pause seconds).report = p.report := by
  cases seconds <;> rfl

def Pass.answered (source : Source σ) (code : String) (p : Pass σ) : Pass σ :=
  { p with
    source := (source code p.source).2
    log := p.log ++ [⟨code, (source code p.source).1.outcome⟩] }

theorem Pass.ask_eq (source : Source σ) (code : String) (p : Pass σ) :
    p.ask source code = ((source code p.source).1.outcome, p.answered source code) := rfl

theorem attempt_of_settled {code : String} {failures : Nat} {p : Pass σ} {s : Settled}
    (h : t.judge failures (source code p.source).1.outcome = .settled s) :
    attempt t source code failures p =
      (.ok s, (p.answered source code).settle code s) := by
  rw [attempt]
  simp only [Pass.ask_eq]
  split
  · simp_all
  · simp_all
  · simp_all

theorem attempt_of_again {code : String} {failures : Nat} {p : Pass σ}
    (h : t.judge failures (source code p.source).1.outcome = .again) :
    attempt t source code failures p =
      match t.pauseAfter failures with
      | .error cause => (.error (.fault (.number cause)), (p.answered source code).retry)
      | .ok seconds =>
        attempt t source code (failures + 1) ((p.answered source code).retry.pause seconds) := by
  rw [attempt]
  simp only [Pass.ask_eq]
  split
  · simp_all
  · rfl
  · simp_all

theorem attempt_of_broken {code : String} {failures : Nat} {p : Pass σ} {fault : Fault}
    (h : t.judge failures (source code p.source).1.outcome = .broken fault) :
    attempt t source code failures p = (.error (.fault fault), p.answered source code) := by
  rw [attempt]
  simp only [Pass.ask_eq]
  split
  · simp_all
  · simp_all
  · simp_all

/-- The end of a query for the code at a place, after some requests that had failed. -/
structure QueryEnds (t : Tuning) (source : Source σ) (place : Nat) (code : String)
    (earlier outcomes : List (Except Fault (List Node))) (result : Except Stop Settled)
    (before after : Ledger σ) : Prop where
  log : after.log = before.log ++ outcomes.map (Asked.mk code)
  answers : Answers source before.source (outcomes.map (Asked.mk code)) after.source
  settled : ∀ s, result = .ok s → Settles t (earlier ++ outcomes) s ∧
    ∃ repeated, outcomes.length = repeated + 1 ∧ after.report =
      { before.report with retried := before.report.retried + repeated }.settle code s
  broken : ∀ stop, result = .error stop →
    ∃ fault, stop = .fault fault ∧ Breaks t place (earlier ++ outcomes) fault

theorem attempt_spec (t : Tuning) (source : Source σ) (place : Nat) (code : String)
    (failures : Nat) (p : Pass σ)
    {earlier : List (Except Fault (List Node))} (hretried : Retried t earlier)
    (hlength : earlier.length = failures) :
    ∃ outcomes, QueryEnds t source place code earlier outcomes
      (attempt t source code failures p).1 p.ledger (attempt t source code failures p).2.ledger := by
  induction failures, p using attempt.induct t source code generalizing earlier with
  | case1 failures p outcome asked hask s hjudge =>
    simp only [Pass.ask_eq, Prod.mk.injEq] at hask
    obtain ⟨rfl, rfl⟩ := hask
    rw [attempt_of_settled hjudge]
    refine ⟨[_], rfl, .single source code p.source, ?_, ?_⟩
    · intro _ h
      cases h
      exact ⟨⟨earlier, _, rfl, hretried, hlength ▸ hjudge⟩, 0, rfl, rfl⟩
    · intro _ h
      cases h
  | case2 failures p outcome asked hask hjudge cause hpause =>
    simp only [Pass.ask_eq, Prod.mk.injEq] at hask
    obtain ⟨rfl, rfl⟩ := hask
    rw [attempt_of_again hjudge, hpause]
    refine ⟨[_], rfl, .single source code p.source, ?_, ?_⟩
    · intro _ h
      cases h
    · intro _ h
      cases h
      subst hlength
      exact ⟨_, rfl, .pause hretried hjudge hpause⟩
  | case3 failures p outcome asked hask hjudge seconds hpause ih =>
    simp only [Pass.ask_eq, Prod.mk.injEq] at hask
    obtain ⟨rfl, rfl⟩ := hask
    rw [attempt_of_again hjudge, hpause]
    obtain ⟨outcomes, hlog, hanswers, hsettled, hbroken⟩ :=
      ih (hretried.snoc (hlength ▸ hjudge) (hlength ▸ hpause)) (by simp [hlength])
    refine ⟨_ :: outcomes, ?_, (Answers.single source code p.source).append ?_, ?_, ?_⟩
    · simpa [Pass.ledger, Pass.retry, Pass.answered] using hlog
    · simpa [Pass.ledger, Pass.retry, Pass.answered] using hanswers
    · intro s hs
      obtain ⟨hsettles, repeated, hcount, hreport⟩ := hsettled s hs
      refine ⟨by simpa using hsettles, repeated + 1, by simp [hcount], ?_⟩
      simpa [Pass.ledger, Pass.retry, Pass.answered, Report.retry, Nat.add_assoc, Nat.add_comm 1]
        using hreport
    · simpa using hbroken
  | case4 failures p outcome asked hask fault hjudge =>
    simp only [Pass.ask_eq, Prod.mk.injEq] at hask
    obtain ⟨rfl, rfl⟩ := hask
    rw [attempt_of_broken hjudge]
    refine ⟨[_], rfl, .single source code p.source, ?_, ?_⟩
    · intro _ h
      cases h
    · intro _ h
      cases h
      subst hlength
      exact ⟨_, rfl, .fault hretried hjudge⟩

theorem settle_eq (place : Nat) (code : String) (p : Pass σ) :
    settle t source place code p =
      match t.pauseAt place with
      | .error cause => (.error (.fault (.number cause)), p)
      | .ok seconds => attempt t source code 0 (p.pause seconds) := rfl

theorem settle_spec (t : Tuning) (source : Source σ) (place : Nat) (code : String) (p : Pass σ) :
    ∃ outcomes, QueryEnds t source place code [] outcomes (settle t source place code p).1
      p.ledger (settle t source place code p).2.ledger ∧
      ((∃ s, (settle t source place code p).1 = .ok s) → ∃ pause, t.pauseAt place = .ok pause) := by
  rw [settle_eq]
  cases hpause : t.pauseAt place with
  | error cause =>
    refine ⟨[], ⟨by simp, .nil, ?_, ?_⟩, ?_⟩
    · intro _ h
      cases h
    · intro _ h
      cases h
      exact ⟨_, rfl, .place hpause⟩
    · intro h
      obtain ⟨_, hok⟩ := h
      cases hok
  | ok seconds =>
    obtain ⟨outcomes, hends⟩ :=
      attempt_spec t source place code 0 (p.pause seconds) (retried_nil t) rfl
    refine ⟨outcomes, ⟨?_, ?_, ?_, hends.broken⟩, fun _ => ⟨seconds, rfl⟩⟩
    · simpa [Pass.ledger] using hends.log
    · simpa [Pass.ledger] using hends.answers
    · simpa [Pass.ledger] using hends.settled

theorem LevelSettled.cons {place : Nat} {code : String} {codes : List String}
    {outcomes : List (Except Fault (List Node))} {s : Settled} {settled : List Settled}
    {made : List Asked} {before between after : Ledger σ} {pause : Option Number}
    (hfresh : code ∉ codes) (hpause : t.pauseAt place = .ok pause)
    (hfirst : QueryEnds t source place code [] outcomes (.ok s) before between)
    (hrest : LevelSettled t source (place + 1) codes settled made between after) :
    LevelSettled t source place (code :: codes) (s :: settled)
      (outcomes.map (Asked.mk code) ++ made) before after := by
  obtain ⟨hsettles, repeated, hcount, hreport⟩ := hfirst.settled s rfl
  have hmade : outcomesFor code made = [] :=
    outcomesFor_eq_nil fun a ha hcode => hfresh (hcode ▸ hrest.asked a ha)
  -- The codes of a level are distinct: what the first query asked counts for no other query.
  have hother : ∀ other ∈ codes, outcomesFor other (outcomes.map (Asked.mk code)) = [] := by
    intro other hmem
    apply outcomesFor_eq_nil
    intro a ha hcode
    obtain ⟨_, _, rfl⟩ := List.mem_map.mp ha
    obtain rfl : code = other := hcode
    exact hfresh hmem
  refine ⟨?_, hfirst.answers.append hrest.answers, ?_, ?_, ?_, ?_, ?_, ?_, ?_, ?_⟩
  · rw [hrest.log, hfirst.log, List.append_assoc]
  · intro a ha
    rcases List.mem_append.mp ha with ha | ha
    · obtain ⟨_, _, rfl⟩ := List.mem_map.mp ha
      exact List.mem_cons_self
    · exact List.mem_cons_of_mem _ (hrest.asked a ha)
  · simp [hrest.length_eq]
  · intro i hi
    cases i with
    | zero => exact ⟨pause, hpause⟩
    | succ i =>
      simpa [Nat.add_assoc, Nat.add_comm 1] using hrest.placed i (by simpa using hi)
  · intro i other s' hcode hs
    cases i with
    | zero =>
      cases hcode
      cases hs
      rw [outcomesFor_append, outcomesFor_map_self, hmade, List.append_nil]
      exact hsettles
    | succ i =>
      have hmem : other ∈ codes := List.mem_of_getElem? hcode
      rw [outcomesFor_append, hother other hmem, List.nil_append]
      exact hrest.settles i other s' hcode hs
  · rw [hrest.fetched, hreport, Report.fetched_settle, List.countP_cons]
    dsimp only
    omega
  · have hretried := hrest.retried
    rw [hreport, Report.retried_settle] at hretried
    dsimp only at hretried
    simp only [List.length_cons, List.length_append, List.length_map, hcount]
    omega
  · intro i other s' hcode hs
    cases i with
    | zero =>
      cases hcode
      cases hs
      rw [hrest.kept code hfresh, hreport, Report.failed_settle_self]
    | succ i =>
      have hne : other ≠ code := fun h => hfresh (h ▸ List.mem_of_getElem? hcode)
      rw [hrest.failed i other s' hcode hs, hreport, Report.failed_settle_of_ne hne]
  · intro other hnot
    rw [List.mem_cons, not_or] at hnot
    rw [hrest.kept other hnot.2, hreport, Report.failed_settle_of_ne hnot.1]

theorem LevelBroken.of_query {place : Nat} {code : String} {codes : List String}
    {outcomes : List (Except Fault (List Node))} {stop : Stop} {before after : Ledger σ}
    (h : QueryEnds t source place code [] outcomes (.error stop) before after) :
    LevelBroken t source place (code :: codes) before after stop := by
  obtain ⟨fault, rfl, hbreaks⟩ := h.broken stop rfl
  refine ⟨fault, 0, code, _, rfl, rfl, h.log, h.answers, ?_⟩
  rw [outcomesFor_map_self]
  exact hbreaks

theorem LevelBroken.cons {place : Nat} {code : String} {codes : List String}
    {outcomes : List (Except Fault (List Node))} {s : Settled} {stop : Stop}
    {before between after : Ledger σ} (hfresh : code ∉ codes)
    (hfirst : QueryEnds t source place code [] outcomes (.ok s) before between)
    (hrest : LevelBroken t source (place + 1) codes between after stop) :
    LevelBroken t source place (code :: codes) before after stop := by
  obtain ⟨fault, i, other, made, hstop, hcode, hlog, hanswers, hbreaks⟩ := hrest
  have hne : other ≠ code := fun h => hfresh (h ▸ List.mem_of_getElem? hcode)
  refine ⟨fault, i + 1, other, _, hstop, hcode, ?_, hfirst.answers.append hanswers, ?_⟩
  · rw [hlog, hfirst.log, List.append_assoc]
  rw [outcomesFor_append, outcomesFor_eq_nil, List.nil_append]
  · rwa [Nat.add_assoc, Nat.add_comm 1] at hbreaks
  · intro a ha hcode
    obtain ⟨_, _, rfl⟩ := List.mem_map.mp ha
    exact hne hcode.symm

/-- A level is left as its first query left it, or as the rest of the level leaves it after that. -/
theorem settleFrom_cons (t : Tuning) (source : Source σ) (place : Nat) (code : String)
    (codes : List String) (p : Pass σ) :
    (settleFrom t source place (code :: codes) p).2 = (settle t source place code p).2 ∨
      (settleFrom t source place (code :: codes) p).2 =
        (settleFrom t source (place + 1) codes (settle t source place code p).2).2 := by
  rw [settleFrom]
  split
  · exact .inl (by simp only [*])
  · right
    split <;> simp only [*]

theorem settleFrom_settled {codes : List String} (hnodup : codes.Nodup) {place : Nat}
    {p p' : Pass σ} {settled : List Settled}
    (h : settleFrom t source place codes p = (.ok settled, p')) :
    ∃ made, LevelSettled t source place codes settled made p.ledger p'.ledger := by
  induction codes generalizing place p settled with
  | nil =>
    cases h
    exact ⟨[], by simp, .nil, by simp, rfl, by simp, by simp, by simp, by simp, by simp, by simp⟩
  | cons code codes ih =>
    obtain ⟨hfresh, hrest⟩ := List.nodup_cons.mp hnodup
    obtain ⟨outcomes, hends, hplace⟩ := settle_spec t source place code p
    rw [settleFrom] at h
    split at h
    · cases h
    · rename_i s between hfirst
      split at h
      · cases h
      · rename_i rest after hafter
        cases h
        rw [hfirst] at hends hplace
        obtain ⟨pause, hpause⟩ := hplace ⟨s, rfl⟩
        obtain ⟨made, hmade⟩ := ih hrest hafter
        exact ⟨_, .cons hfresh hpause hends hmade⟩

theorem settleFrom_broken {codes : List String} (hnodup : codes.Nodup) {place : Nat}
    {p p' : Pass σ} {stop : Stop} (h : settleFrom t source place codes p = (.error stop, p')) :
    LevelBroken t source place codes p.ledger p'.ledger stop := by
  induction codes generalizing place p with
  | nil => cases h
  | cons code codes ih =>
    obtain ⟨hfresh, hrest⟩ := List.nodup_cons.mp hnodup
    obtain ⟨outcomes, hends, _⟩ := settle_spec t source place code p
    rw [settleFrom] at h
    split at h
    · rename_i hfirst
      cases h
      rw [hfirst] at hends
      exact .of_query hends
    · rename_i s between hfirst
      rw [hfirst] at hends
      split at h
      · rename_i hafter
        cases h
        exact .cons hfresh hends (ih hrest hafter)
      · cases h

end AdminConsole.Resolve
