import AdminConsole.Resolve.Load

/-!
What the requests of one query, and of one level, have to look like. A query is settled by the
outcome of its last request, and every request before it was repeated. A level is settled when the
queries for all its codes are, in whatever order their requests were made.
-/

namespace AdminConsole.Report

theorem fetched_settle (r : Report) (code : String) (s : Settled) :
    (r.settle code s).fetched = r.fetched + if s.isOk then 1 else 0 := by
  cases s <;> rfl

@[simp] theorem retried_settle (r : Report) (code : String) (s : Settled) :
    (r.settle code s).retried = r.retried := by
  cases s <;> rfl

theorem failed_settle_self (r : Report) (code : String) (s : Settled) :
    Entries.get? code (r.settle code s).failed =
      match s with
      | .ok _ => Entries.get? code r.failed
      | .error e => some e.message := by
  cases s with
  | ok nodes => rfl
  | error e => exact Entries.get?_put_self code e.message r.failed

theorem failed_settle_of_ne {code other : String} (h : other ≠ code) (r : Report) (s : Settled) :
    Entries.get? other (r.settle code s).failed = Entries.get? other r.failed := by
  cases s with
  | ok nodes => rfl
  | error e => exact Entries.get?_put_of_ne h e.message r.failed

end AdminConsole.Report

namespace AdminConsole.Resolve

/-- A request after some failures is repeated: its outcome says so, and the pause can be made. -/
def Repeats (t : Tuning) (failures : Nat) (outcome : Except Fault (List Node)) : Prop :=
  t.judge failures outcome = .again ∧ ∃ pause, t.pauseAfter failures = .ok pause

/-- Requests that were all repeated, the first of them without a failure before it. -/
def Retried (t : Tuning) (outcomes : List (Except Fault (List Node))) : Prop :=
  ∀ (k : Nat) (outcome : Except Fault (List Node)), outcomes[k]? = some outcome →
    Repeats t k outcome

def Settles (t : Tuning) (outcomes : List (Except Fault (List Node))) (s : Settled) : Prop :=
  ∃ earlier last, outcomes = earlier ++ [last] ∧ Retried t earlier ∧
    t.judge earlier.length last = .settled s

/-- The requests of a query that ends the pass, at a place of its level. -/
inductive Breaks (t : Tuning) (place : Nat) : List (Except Fault (List Node)) → Fault → Prop where
  | place {outcomes cause} : t.pauseAt place = .error cause →
    Breaks t place outcomes (.number cause)
  | pause {earlier last cause} : Retried t earlier → t.judge earlier.length last = .again →
    t.pauseAfter earlier.length = .error cause →
    Breaks t place (earlier ++ [last]) (.number cause)
  | fault {earlier last fault} : Retried t earlier → t.judge earlier.length last = .broken fault →
    Breaks t place (earlier ++ [last]) fault

theorem retried_nil (t : Tuning) : Retried t [] := by
  intro k outcome h
  simp at h

theorem Retried.snoc {t : Tuning} {earlier : List (Except Fault (List Node))}
    {last : Except Fault (List Node)} {pause : Option Number} (h : Retried t earlier)
    (hagain : t.judge earlier.length last = .again)
    (hpause : t.pauseAfter earlier.length = .ok pause) : Retried t (earlier ++ [last]) := by
  intro k outcome hk
  rw [List.getElem?_append] at hk
  split at hk
  · exact h k outcome hk
  · rename_i hle
    have hsub : k - earlier.length = 0 := by
      have := (List.getElem?_eq_some_iff.mp hk).1
      simp only [List.length_singleton] at this
      omega
    have hkl : k = earlier.length := by omega
    simp only [hsub, List.getElem?_cons_zero, Option.some.injEq] at hk
    subst hk
    subst hkl
    exact ⟨hagain, pause, hpause⟩

theorem ok_of_judge {t : Tuning} {failures : Nat} {outcome : Except Fault (List Node)}
    {nodes : List Node} (h : t.judge failures outcome = .settled (.ok nodes)) :
    outcome = .ok nodes := by
  unfold Tuning.judge at h
  split at h
  · cases h
    rfl
  · split at h <;> cases h
  · cases h

/-- A fault that is no error of the fetch is never asked about again. -/
theorem judge_of_fault {t : Tuning} {fault : Fault} (hfault : ∀ e, fault ≠ .fetch e)
    (failures : Nat) : t.judge failures (.error fault) = .broken fault := by
  cases fault with
  | fetch e => exact absurd rfl (hfault e)
  | _ => rfl

theorem Settles.mem_ok {t : Tuning} {outcomes : List (Except Fault (List Node))}
    {nodes : List Node} (h : Settles t outcomes (.ok nodes)) : .ok nodes ∈ outcomes := by
  obtain ⟨earlier, last, rfl, _, hjudge⟩ := h
  rw [ok_of_judge hjudge]
  exact List.mem_append_right _ List.mem_cons_self

theorem Settles.unique {t : Tuning} {outcomes : List (Except Fault (List Node))} {s s' : Settled}
    (h : Settles t outcomes s) (h' : Settles t outcomes s') : s = s' := by
  obtain ⟨earlier, last, rfl, _, hjudge⟩ := h
  obtain ⟨earlier', last', heq, _, hjudge'⟩ := h'
  obtain ⟨rfl, hlast⟩ := List.append_inj' heq rfl
  obtain rfl : last = last' := by simpa using hlast
  rw [hjudge] at hjudge'
  exact Verdict.settled.inj hjudge'

def outcomesFor (code : String) (log : List Asked) : List (Except Fault (List Node)) :=
  (log.filter fun a => a.code = code).map Asked.outcome

@[simp] theorem outcomesFor_nil (code : String) : outcomesFor code [] = [] := rfl

@[simp] theorem outcomesFor_append (code : String) (a b : List Asked) :
    outcomesFor code (a ++ b) = outcomesFor code a ++ outcomesFor code b := by
  simp [outcomesFor]

theorem outcomesFor_cons_self (code : String) (outcome : Except Fault (List Node))
    (log : List Asked) :
    outcomesFor code (⟨code, outcome⟩ :: log) = outcome :: outcomesFor code log := by
  simp [outcomesFor]

theorem outcomesFor_cons_of_ne {code : String} {a : Asked} (h : a.code ≠ code)
    (log : List Asked) : outcomesFor code (a :: log) = outcomesFor code log := by
  simp [outcomesFor, h]

theorem outcomesFor_eq_nil {code : String} {log : List Asked} (h : ∀ a ∈ log, a.code ≠ code) :
    outcomesFor code log = [] := by
  simpa [outcomesFor, List.filter_eq_nil_iff] using h

theorem mem_outcomesFor {code : String} {outcome : Except Fault (List Node)} {log : List Asked} :
    outcome ∈ outcomesFor code log ↔ ⟨code, outcome⟩ ∈ log := by
  simp only [outcomesFor, List.mem_map, List.mem_filter, decide_eq_true_eq]
  constructor
  · intro hmem
    obtain ⟨⟨_, _⟩, ⟨hmem, rfl⟩, rfl⟩ := hmem
    exact hmem
  · exact fun hmem => ⟨_, ⟨hmem, rfl⟩, rfl⟩

theorem outcomesFor_map_self (code : String) (outcomes : List (Except Fault (List Node))) :
    outcomesFor code (outcomes.map (Asked.mk code)) = outcomes := by
  induction outcomes with
  | nil => rfl
  | cons outcome rest ih => rw [List.map_cons, outcomesFor_cons_self, ih]

/-- The requests that a source answers from one state to another. -/
inductive Answers {σ : Type} (source : Source σ) (s : σ) : List Asked → σ → Prop where
  | nil : Answers source s [] s
  | snoc {made s'} (code : String) : Answers source s made s' →
    Answers source s (made ++ [⟨code, (source code s').1.outcome⟩]) (source code s').2

namespace Answers

variable {σ : Type} {source : Source σ} {s s' s'' : σ} {a b : List Asked}

theorem single (source : Source σ) (code : String) (s : σ) :
    Answers source s [⟨code, (source code s).1.outcome⟩] (source code s).2 :=
  .snoc code .nil

theorem append (ha : Answers source s a s') (hb : Answers source s' b s'') :
    Answers source s (a ++ b) s'' := by
  induction hb with
  | nil => simpa using ha
  | snoc code _ ih =>
    rw [← List.append_assoc]
    exact .snoc code ih

end Answers

/-- From a state on, requests to a source fail for no other reason than the query itself. -/
def Fetching {σ : Type} (source : Source σ) (s : σ) : Prop :=
  ∀ made s', Answers source s made s' → ∀ a ∈ made, ∀ fault, a.outcome = .error fault →
    ∃ e, fault = .fetch e

/-- A level whose queries are settled, the first of them at some place: the requests that were
made, and the books before and after. -/
structure LevelSettled {σ : Type} (t : Tuning) (source : Source σ) (place : Nat)
    (codes : List String) (settled : List Settled) (made : List Asked)
    (before after : Ledger σ) : Prop where
  log : after.log = before.log ++ made
  answers : Answers source before.source made after.source
  asked : ∀ a ∈ made, a.code ∈ codes
  length_eq : settled.length = codes.length
  placed : ∀ i < codes.length, ∃ pause, t.pauseAt (place + i) = .ok pause
  settles : ∀ (i : Nat) (code : String) (s : Settled), codes[i]? = some code →
    settled[i]? = some s → Settles t (outcomesFor code made) s
  fetched : after.report.fetched = before.report.fetched + settled.countP Except.isOk
  retried : after.report.retried + codes.length = before.report.retried + made.length
  failed : ∀ (i : Nat) (code : String) (s : Settled), codes[i]? = some code →
    settled[i]? = some s → Entries.get? code after.report.failed =
      match s with
      | .ok _ => Entries.get? code before.report.failed
      | .error e => some e.message
  kept : ∀ code, code ∉ codes →
    Entries.get? code after.report.failed = Entries.get? code before.report.failed

theorem LevelSettled.query {σ : Type} {t : Tuning} {source : Source σ} {place : Nat}
    {codes : List String} {settled : List Settled} {made : List Asked} {before after : Ledger σ}
    (h : LevelSettled t source place codes settled made before after) {code : String}
    (hcode : code ∈ codes) :
    ∃ (i : Nat) (s : Settled), codes[i]? = some code ∧ settled[i]? = some s := by
  obtain ⟨i, hi⟩ := List.mem_iff_getElem?.mp hcode
  have hlt : i < settled.length := h.length_eq ▸ (List.getElem?_eq_some_iff.mp hi).1
  exact ⟨i, settled[i], hi, List.getElem?_eq_getElem hlt⟩

/-- A level in which a query ended the pass: the requests that were made, and the books before and
after. -/
def LevelBroken {σ : Type} (t : Tuning) (source : Source σ) (place : Nat) (codes : List String)
    (before after : Ledger σ) (stop : Stop) : Prop :=
  ∃ (fault : Fault) (i : Nat) (code : String) (made : List Asked),
    stop = .fault fault ∧ codes[i]? = some code ∧ after.log = before.log ++ made ∧
      Answers source before.source made after.source ∧
        Breaks t (place + i) (outcomesFor code made) fault

end AdminConsole.Resolve
