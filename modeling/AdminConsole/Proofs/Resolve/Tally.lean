import AdminConsole.Proofs.Resolve.Repetition

/-!
The report against the requests. A query that is settled made one request for each repetition and
one more, which found something or left an error; its code then counts as fetched or as missing.
A code is missing once at most and is not asked for after that, so nothing is counted twice, and
the missing codes are those whose last request failed.
-/

namespace AdminConsole

/-- Each missing code stands in the report once. -/
def Report.Distinct (r : Report) : Prop := (Entries.names r.failed).Nodup

namespace Report

theorem Distinct.retry {r : Report} (h : r.Distinct) : r.retry.Distinct := h

theorem Distinct.settle {r : Report} (h : r.Distinct) (code : String) (s : Settled) :
    (r.settle code s).Distinct := by
  cases s with
  | ok nodes => exact h
  | error e => exact Entries.nodup_put h code e.message

end Report

namespace Resolve

/-- Ways to settle levels that do not write a missing code twice. -/
def Tidy {σ S : Type} (ledger : S → Ledger σ) (gather : Gather S) : Prop :=
  ∀ codes state, (ledger state).report.Distinct → (ledger (gather codes state).2).report.Distinct

section InSequence

variable {σ : Type} {t : Tuning} {source : Source σ}

theorem attempt_distinct (code : String) (failures : Nat) (p : Pass σ) (h : p.report.Distinct) :
    (attempt t source code failures p).2.report.Distinct := by
  induction failures, p using attempt.induct t source code with
  | case1 failures p outcome asked hask s hjudge =>
    obtain ⟨rfl, rfl⟩ := Prod.mk.inj hask
    rw [attempt_of_settled hjudge]
    exact Report.Distinct.settle h code s
  | case2 failures p outcome asked hask hjudge cause hpause =>
    obtain ⟨rfl, rfl⟩ := Prod.mk.inj hask
    rw [attempt_of_again hjudge, hpause]
    exact Report.Distinct.retry h
  | case3 failures p outcome asked hask hjudge seconds hpause ih =>
    obtain ⟨rfl, rfl⟩ := Prod.mk.inj hask
    rw [attempt_of_again hjudge, hpause]
    apply ih
    rw [Pass.pause_report]
    exact Report.Distinct.retry h
  | case4 failures p outcome asked hask fault hjudge =>
    obtain ⟨rfl, rfl⟩ := Prod.mk.inj hask
    rw [attempt_of_broken hjudge]
    exact h

theorem settle_distinct (place : Nat) (code : String) (p : Pass σ) (h : p.report.Distinct) :
    (settle t source place code p).2.report.Distinct := by
  rw [settle_eq]
  split
  · exact h
  · rename_i seconds _
    exact attempt_distinct code 0 _ (by rwa [Pass.pause_report])

theorem settleFrom_distinct (place : Nat) (codes : List String) (p : Pass σ)
    (h : p.report.Distinct) : (settleFrom t source place codes p).2.report.Distinct := by
  induction codes generalizing place p with
  | nil => exact h
  | cons code codes ih =>
    have hfirst : (settle t source place code p).2.report.Distinct := settle_distinct place code p h
    rcases settleFrom_cons t source place code codes p with hend | hend
    · rwa [hend]
    · rw [hend]
      exact ih (place + 1) _ hfirst

theorem tidy_inSequence (t : Tuning) (source : Source σ) :
    Tidy Pass.ledger (inSequence t source) :=
  fun codes p h => settleFrom_distinct 0 codes p h

end InSequence

section OnSchedule

variable {σ : Type} {t : Tuning} {source : Source σ} {cancelAt : Option Binary64} {order : Order σ}
  {l l' : Level σ}

theorem proceed_distinct {i : Nat} {task : Task} (verdict : Verdict)
    (h : l.line.ledger.report.Distinct) :
    (l.proceed t i task verdict).line.ledger.report.Distinct := by
  cases verdict with
  | settled s => exact Report.Distinct.settle h task.code s
  | again =>
    rw [Level.proceed, Level.ledger_paused]
    exact Report.Distinct.retry h
  | broken fault => exact h

theorem happen_distinct {e : Event} (h : l.line.ledger.report.Distinct)
    (hhappen : Level.happen t source l e = .ok l') : l'.line.ledger.report.Distinct := by
  cases e with
  | begin i =>
    simp only [Level.happen] at hhappen
    split at hhappen <;> cases hhappen
    · rwa [Level.ledger_paused]
    · exact h
  | ask i =>
    cases hhappen
    rwa [Level.ledger_ask]
  | enter i =>
    simp only [Level.happen] at hhappen
    split at hhappen <;> cases hhappen
    · rw [Level.ledger_enter]
      exact h
    · exact h
  | answer i =>
    simp only [Level.happen] at hhappen
    split at hhappen
    · split at hhappen <;> cases hhappen
      · exact proceed_distinct _ (by rwa [Level.ledger_hangUp])
      · exact h
    · cases hhappen
      exact h
  | report fault =>
    cases hhappen
    exact h
  | abort fault => cases hhappen

theorem step_distinct (h : l.line.ledger.report.Distinct)
    (hstep : l.step t source cancelAt order = .ok l') : l'.line.ledger.report.Distinct := by
  rcases Level.step_ok hstep with ⟨e, held, hpick, hhappen⟩ | ⟨_, till, _, _, rfl⟩
  · rw [← (Level.pick_kept hpick).2] at h
    exact happen_distinct h hhappen
  · exact h

theorem run_distinct (h : l.line.ledger.report.Distinct) :
    (l.run t source cancelAt order).2.ledger.report.Distinct := by
  obtain ⟨m, hm, hlast⟩ := Level.run_keeps (P := fun m => m.line.ledger.report.Distinct) h
    fun _ _ h hstep => step_distinct h hstep
  rwa [hlast]

theorem tidy_onSchedule (t : Tuning) (source : Source σ) (cancelAt : Option Binary64)
    (order : Order σ) : Tidy Timeline.ledger (onSchedule t source cancelAt order) :=
  fun _ _ h => run_distinct h

end OnSchedule

/-- The last request for a code failed. -/
def LastFails (code : String) (log : List Asked) : Prop :=
  ∃ fault, (outcomesFor code log).getLast? = some (.error fault)

/-- The last request for a code found something. -/
def LastFinds (code : String) (log : List Asked) : Prop :=
  ∃ nodes, (outcomesFor code log).getLast? = some (.ok nodes)

/-- Books that balance: every request found something, was repeated, or was the last one for a code
that is missing now; missing are the codes whose last request failed, each of them once. -/
structure Tallied {σ : Type} (books : Ledger σ) : Prop where
  requests : books.log.length =
    books.report.fetched + books.report.retried + books.report.failed.length
  distinct : books.report.Distinct
  failed : ∀ code, code ∈ Entries.names books.report.failed ↔ LastFails code books.log

theorem last_of_asked {log : List Asked} {a : Asked} (h : a ∈ log) :
    LastFails a.code log ∨ LastFinds a.code log := by
  have hne : outcomesFor a.code log ≠ [] := outcomesFor_ne_nil.mpr ⟨a, h, rfl⟩
  cases hlast : (outcomesFor a.code log).getLast? with
  | none => exact absurd (List.getLast?_eq_none_iff.mp hlast) hne
  | some last =>
    cases last with
    | error fault => exact .inl ⟨fault, hlast⟩
    | ok nodes => exact .inr ⟨nodes, hlast⟩

theorem LastFinds.not_fails {code : String} {log : List Asked} (h : LastFinds code log) :
    ¬ LastFails code log := by
  obtain ⟨nodes, hlast⟩ := h
  rintro ⟨fault, hfails⟩
  rw [hlast] at hfails
  cases hfails

theorem LastFails.asked {code : String} {log : List Asked} (h : LastFails code log) :
    ∃ a ∈ log, a.code = code := by
  obtain ⟨fault, hlast⟩ := h
  apply outcomesFor_ne_nil.mp
  intro hnil
  rw [hnil] at hlast
  cases hlast

namespace Tallied

variable {σ : Type} {books : Ledger σ}

theorem start (s : σ) : Tallied (⟨s, [], .empty⟩ : Ledger σ) :=
  ⟨rfl, .nil, fun code => by simp [LastFails, Report.empty, Entries.names]⟩

theorem isComplete_iff (h : Tallied books) : books.report.isComplete = true ↔
    ∀ a ∈ books.log, LastFinds a.code books.log := by
  have hempty : books.report.isComplete = true ↔
      ∀ code, code ∉ Entries.names books.report.failed := by
    rw [Report.isComplete, List.isEmpty_iff, ← List.eq_nil_iff_forall_not_mem, Entries.names,
      List.map_eq_nil_iff]
  rw [hempty]
  constructor
  · intro hnone a ha
    exact (last_of_asked ha).resolve_left fun hfails => hnone a.code ((h.failed _).mpr hfails)
  · intro hall code hmem
    have hfails := (h.failed code).mp hmem
    obtain ⟨a, ha, rfl⟩ := hfails.asked
    exact (hall a ha).not_fails hfails

end Tallied

/-- A query that is settled ends with the outcome that settled it. -/
theorem Settles.lastFails_iff {t : Tuning} {code : String} {made : List Asked} {s : Settled}
    (h : Settles t (outcomesFor code made) s) (log : List Asked) :
    LastFails code (log ++ made) ↔ s.isOk = false := by
  obtain ⟨earlier, last, houtcomes, _, hjudge⟩ := h
  rw [LastFails, outcomesFor_append, houtcomes, ← List.append_assoc, List.getLast?_concat]
  cases s with
  | ok nodes => simp [ok_of_judge hjudge, Except.isOk, Except.toBool]
  | error e =>
    obtain ⟨fault, rfl⟩ : ∃ fault, last = .error fault := by
      cases last with
      | ok nodes => cases hjudge
      | error fault => exact ⟨fault, rfl⟩
    simp [Except.isOk, Except.toBool]

section

variable {σ : Type} {t : Tuning} {source : Source σ} {codes : List String} {settled : List Settled}
  {made : List Asked} {before after : Ledger σ}

/-- The codes of a level whose queries ended in an error. -/
def missing (codes : List String) (settled : List Settled) : List String :=
  ((codes.zip settled).filter fun query => !query.2.isOk).map Prod.fst

theorem mem_missing {code : String} : code ∈ missing codes settled ↔
    ∃ (i : Nat) (e : FetchError), codes[i]? = some code ∧ settled[i]? = some (.error e) := by
  simp only [missing, List.mem_map, List.mem_filter]
  constructor
  · rintro ⟨⟨_, s⟩, ⟨hmem, hnot⟩, rfl⟩
    obtain ⟨i, hi⟩ := List.mem_iff_getElem?.mp hmem
    obtain ⟨hcode, hs⟩ := List.getElem?_zip_eq_some.mp hi
    cases s with
    | ok nodes => cases hnot
    | error e => exact ⟨i, e, hcode, hs⟩
  · rintro ⟨i, e, hcode, hs⟩
    have hi : (codes.zip settled)[i]? = some (code, .error e) :=
      List.getElem?_zip_eq_some.mpr ⟨hcode, hs⟩
    exact ⟨(code, .error e), ⟨List.mem_of_getElem? hi, rfl⟩, rfl⟩

theorem nodup_missing (hnodup : codes.Nodup) (hlength : settled.length = codes.length) :
    (missing codes settled).Nodup := by
  have hfst : (codes.zip settled).map Prod.fst = codes := List.map_fst_zip (Nat.le_of_eq hlength.symm)
  have hsub : (missing codes settled).Sublist ((codes.zip settled).map Prod.fst) :=
    List.filter_sublist.map Prod.fst
  rw [hfst] at hsub
  exact hnodup.sublist hsub

theorem length_missing (hlength : settled.length = codes.length) :
    settled.countP Except.isOk + (missing codes settled).length = codes.length := by
  have hsnd : (codes.zip settled).map Prod.snd = settled := List.map_snd_zip (Nat.le_of_eq hlength)
  have hmissing : (missing codes settled).length = settled.countP fun s => !s.isOk := by
    rw [missing, List.length_map, ← List.countP_eq_length_filter]
    conv_rhs => rw [← hsnd, List.countP_map]
    rfl
  have hsplit : settled.length =
      settled.countP Except.isOk + settled.countP fun s => !s.isOk := by
    rw [settled.length_eq_countP_add_countP Except.isOk]
    congr 1
    exact List.countP_congr fun s _ => by simp
  omega

variable (h : LevelSettled t source 0 codes settled made before after)
include h

/-- A level adds the codes whose queries ended in an error to the missing ones. -/
theorem LevelSettled.mem_failed
    (hfresh : ∀ code ∈ codes, code ∉ Entries.names before.report.failed) (code : String) :
    code ∈ Entries.names after.report.failed ↔
      code ∈ Entries.names before.report.failed ++ missing codes settled := by
  rw [List.mem_append, mem_missing]
  constructor
  · intro hmem
    by_cases hcode : code ∈ codes
    · obtain ⟨i, s, hi, hs⟩ := h.query hcode
      cases s with
      | error e => exact .inr ⟨i, e, hi, hs⟩
      | ok nodes =>
        rw [Entries.mem_names_iff, h.failed i code _ hi hs, ← Entries.mem_names_iff] at hmem
        exact .inl hmem
    · rw [Entries.mem_names_iff, h.kept code hcode, ← Entries.mem_names_iff] at hmem
      exact .inl hmem
  · rintro (hmem | ⟨i, e, hi, hs⟩)
    · have hkept := h.kept code fun hcode => hfresh code hcode hmem
      rwa [Entries.mem_names_iff, hkept, ← Entries.mem_names_iff]
    · exact Entries.mem_names_iff.mpr ⟨e.message, h.failed i code _ hi hs⟩

/-- Books that balance do so after a level for codes that are not missing yet. -/
theorem LevelSettled.tallied (hnodup : codes.Nodup)
    (hfresh : ∀ code ∈ codes, code ∉ Entries.names before.report.failed)
    (hbefore : Tallied before) (hdistinct : after.report.Distinct) : Tallied after := by
  have hmissing := length_missing h.length_eq
  have hnames : (Entries.names after.report.failed).Perm
      (Entries.names before.report.failed ++ missing codes settled) := by
    refine (List.perm_ext_iff_of_nodup hdistinct ?_).mpr (h.mem_failed hfresh)
    refine List.nodup_append'.mpr ⟨hbefore.distinct, nodup_missing hnodup h.length_eq, ?_⟩
    intro code hold hnew
    obtain ⟨i, _, hi, _⟩ := mem_missing.mp hnew
    exact hfresh code (List.mem_of_getElem? hi) hold
  refine ⟨?_, hdistinct, fun code => ?_⟩
  · -- Each query made one request more than it repeated, and was fetched or is missing now.
    have hlength := hnames.length_eq
    have hrequests := hbefore.requests
    have hfetched := h.fetched
    have hretried := h.retried
    simp only [Entries.names, List.length_append, List.length_map] at hlength
    rw [h.log, List.length_append]
    omega
  · rw [h.log]
    by_cases hcode : code ∈ codes
    · obtain ⟨i, s, hi, hs⟩ := h.query hcode
      rw [(h.settles i code s hi hs).lastFails_iff, Entries.mem_names_iff, h.failed i code s hi hs]
      cases s with
      | error e => simp [Except.isOk, Except.toBool]
      | ok nodes =>
        simp only [← Entries.mem_names_iff, hfresh code hcode, false_iff]
        exact Bool.noConfusion
    · have hnone : outcomesFor code made = [] :=
        outcomesFor_eq_nil fun a ha (heq : a.code = code) => hcode (heq ▸ h.asked a ha)
      rw [Entries.mem_names_iff, h.kept code hcode, ← Entries.mem_names_iff, hbefore.failed code,
        LastFails, LastFails, outcomesFor_append, hnone, List.append_nil]

end

section

variable {σ S : Type} {t : Tuning} {source : Source σ} {ledger : S → Ledger σ} {gather : Gather S}
  {state state' : S} {roots : List Node}

theorem Descent.tallied (hgather : Settling t source ledger gather) (htidy : Tidy ledger gather)
    {depth : Nat} {met : List String} {frontier : List Node}
    (h : Descent gather depth met frontier state (.ok roots) state')
    (hmet : ∀ code ∈ Entries.names (ledger state).report.failed, code ∈ met)
    (hbefore : Tallied (ledger state)) : Tallied (ledger state') := by
  generalize hresult : Except.ok roots = result at h
  induction h generalizing roots with
  | done => exact hbefore
  | tooDeep => exact hbefore
  | stopped => cases hresult
  | halted => cases hresult
  | @level _ met frontier state settled between _ _ _ hsettled _ ih =>
    obtain ⟨made, hlevel⟩ := hgather _ _ _ _ (nodup_freshCodes met frontier) hsettled
    have hdistinct := htidy (freshCodes met frontier) state hbefore.distinct
    rw [hsettled] at hdistinct
    -- What is missing was met on a level above, so no code of this level is missing yet.
    have hfresh : ∀ code ∈ freshCodes met frontier,
        code ∉ Entries.names (ledger state).report.failed :=
      fun code hcode hmem => (mem_freshCodes.mp hcode).2.1 (hmet code hmem)
    refine ih ?_ (hlevel.tallied (nodup_freshCodes met frontier) hfresh hbefore hdistinct) rfl
    intro code hmem
    rcases List.mem_append.mp ((hlevel.mem_failed hfresh code).mp hmem) with hold | hnew
    · exact List.mem_append_right _ (hmet code hold)
    · obtain ⟨i, _, hi, _⟩ := mem_missing.mp hnew
      exact List.mem_append_left _ (List.mem_of_getElem? hi)

theorem forest_tallied (hgather : Settling t source ledger gather) (htidy : Tidy ledger gather)
    {depth : Nat} {parent : String} {s : σ} (hstart : ledger state = ⟨s, [], .empty⟩)
    (h : forest gather depth parent state = (.ok roots, state')) :
    Tallied (ledger state') := by
  unfold forest at h
  split at h
  · cases h
  · rename_i settled between hsettled
    obtain ⟨first, hfirst⟩ := hgather _ _ _ _ (by simp) hsettled
    have hdistinct := htidy [parent] state
    rw [hsettled, hstart] at hdistinct
    rw [hstart] at hfirst
    have hbetween := hfirst.tallied (by simp) (by simp [Report.empty, Entries.names]) (.start s)
      (hdistinct .nil)
    split at h
    · cases h
      exact hbetween
    · cases h
    · rename_i records rest
      obtain rfl : rest = [] := by simpa using hfirst.length_eq
      have hdescent := expand_descent gather depth [] records between
      rw [h] at hdescent
      refine hdescent.tallied hgather htidy ?_ hbetween
      intro code hmem
      have hnew := (hfirst.mem_failed (by simp [Report.empty, Entries.names]) code).mp hmem
      simp [Report.empty, Entries.names, missing, Except.isOk, Except.toBool] at hnew

end

theorem Settles.lastFinds {t : Tuning} {code : String} {made : List Asked} {nodes : List Node}
    (h : Settles t (outcomesFor code made) (.ok nodes)) : LastFinds code made := by
  obtain ⟨earlier, last, houtcomes, _, hjudge⟩ := h
  refine ⟨nodes, ?_⟩
  rw [houtcomes, List.getLast?_concat, ok_of_judge hjudge]

/-- The report of a pass that brings a forest accounts for all requests that were made, and it is
complete if and only if every code that was asked for found something in the end. The first query is
the one for the code that the pass begins with, and it found the roots. -/
theorem resolve_tallies {σ : Type} {t : Tuning} {source : Source σ} {depth : Nat} {parent : String}
    {s : σ} {manner : Manner σ} {roots : List Node} {books : Ledger σ}
    (h : resolve t source depth parent s manner = (.ok roots, books)) :
    Tallied books ∧
      (books.report.isComplete = true ↔ ∀ a ∈ books.log, LastFinds a.code books.log) ∧
      ∃ first again, books.log = first ++ again ∧ (∀ a ∈ first, a.code = parent) ∧
        LastFinds parent first := by
  obtain ⟨htallied, first, again, hlog, hown, records, hsettles⟩ : Tallied books ∧
      ∃ first again, books.log = first ++ again ∧ (∀ a ∈ first, a.code = parent) ∧
        ∃ records, Settles t (outcomesFor parent first) (.ok records) := by
    cases manner with
    | inSequence =>
      simp only [resolve, Prod.mk.injEq] at h
      obtain ⟨hroots, rfl⟩ := h
      have hsettling := settling_inSequence t source
      refine ⟨forest_tallied hsettling (tidy_inSequence t source) rfl (Prod.ext hroots rfl), ?_⟩
      obtain ⟨first, again, hlog, hturn, hall⟩ :=
        forest_asks hsettling (sparing_inSequence t source) depth parent (Pass.start s)
      exact ⟨first, again, hlog, hturn.own, (hall ⟨roots, hroots⟩).1⟩
    | onSchedule cancelAt order =>
      simp only [resolve, Prod.mk.injEq] at h
      obtain ⟨hroots, rfl⟩ := h
      have hsettling := settling_onSchedule t source cancelAt order
      refine ⟨forest_tallied hsettling (tidy_onSchedule t source cancelAt order) rfl
        (Prod.ext hroots rfl), ?_⟩
      obtain ⟨first, again, hlog, hturn, hall⟩ :=
        forest_asks hsettling (sparing_onSchedule t source cancelAt order) depth parent
          (Timeline.start s)
      exact ⟨first, again, hlog, hturn.own, (hall ⟨roots, hroots⟩).1⟩
  exact ⟨htallied, htallied.isComplete_iff, first, again, hlog, hown, hsettles.lastFinds⟩

/-- A query that is repeated and found something then, and one that fails for good. -/
def gapped : Script :=
  [("0", [brings ["A", "B"]]), ("A", [busy, brings []]),
    ("B", [⟨.whole 0, .error (.fetch .permanent "gone" (some 404))⟩])]

theorem resolve_tallies_gapped :
    let pass := resolve twice Script.source 4 "0" gapped (.onSchedule none firstCome)
    (∃ roots, pass.1 = .ok roots) ∧ Tallied pass.2 ∧ pass.2.log.length = 4 ∧
      pass.2.report = ⟨2, 1, [("B", "gone")]⟩ ∧ ¬ ∀ a ∈ pass.2.log, LastFinds a.code pass.2.log := by
  have hok : (resolve twice Script.source 4 "0" gapped (.onSchedule none firstCome)).1.isOk := by
    decide +kernel
  obtain ⟨roots, hroots⟩ : ∃ roots,
      (resolve twice Script.source 4 "0" gapped (.onSchedule none firstCome)).1 = .ok roots := by
    generalize (resolve twice Script.source 4 "0" gapped _).1 = result at hok
    cases result with
    | ok roots => exact ⟨roots, rfl⟩
    | error halt => cases hok
  obtain ⟨htallied, hcomplete, _⟩ := resolve_tallies (Prod.ext hroots rfl)
  refine ⟨⟨roots, hroots⟩, htallied, by decide +kernel, by decide +kernel, ?_⟩
  rw [← hcomplete]
  decide +kernel

end Resolve

end AdminConsole
