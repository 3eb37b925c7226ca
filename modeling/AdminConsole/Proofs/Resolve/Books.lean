import Mathlib
import AdminConsole.Proofs.Resolve.Queries
import AdminConsole.Proofs.Resolve.Turns

/-!
The books of a level on schedule. The phase of a task tells which requests were made for its code,
and the report counts what the tasks have done, whatever the order of the events. When every task
is settled the books are those of a settled level; when the level ends with a fault, some query
broke with it.
-/

namespace AdminConsole.Resolve

variable {σ : Type} {t : Tuning} {source : Source σ}

/-- How far the query of the task at a place has come: its phase, its failures, and the outcomes
of its requests. -/
inductive Standing (t : Tuning) (place : Nat) :
    Phase → Nat → List (Except Fault (List Node)) → Prop where
  | idle : Standing t place .idle 0 []
  | waiting {outcomes} : (∃ pause, t.pauseAt place = .ok pause) → Retried t outcomes →
    Standing t place .waiting outcomes.length outcomes
  | requesting {earlier call reply} : (∃ pause, t.pauseAt place = .ok pause) → Retried t earlier →
    Standing t place (.requesting call reply) earlier.length (earlier ++ [reply.outcome])
  | settled {earlier last s} : (∃ pause, t.pauseAt place = .ok pause) → Retried t earlier →
    t.judge earlier.length last = .settled s →
    Standing t place (.settled s) earlier.length (earlier ++ [last])
  | failed {failures outcomes fault} : Breaks t place outcomes fault →
    Standing t place (.failed fault) failures outcomes

/-- What a task in a phase adds to the count of successful queries. -/
def Phase.found : Phase → Nat
  | .settled (.ok _) => 1
  | _ => 0

/-- The reason left for the code of a task in a phase, given the one there was before. -/
def Phase.reason (before : Option String) : Phase → Option String
  | .settled (.error e) => some e.message
  | _ => before

/-- The books of a level, given the ones before it and the requests made since. -/
structure Accounted (t : Tuning) (source : Source σ) (codes : List String) (before : Ledger σ)
    (made : List Asked) (tasks : List Task) (now : Ledger σ) : Prop where
  names : tasks.map Task.code = codes
  log : now.log = before.log ++ made
  answers : Answers source before.source made now.source
  asked : ∀ a ∈ made, a.code ∈ codes
  standing : ∀ i task, tasks[i]? = some task →
    Standing t i task.phase task.failures (outcomesFor task.code made)
  fetched : now.report.fetched = before.report.fetched + (tasks.map fun task => task.phase.found).sum
  retried : now.report.retried = before.report.retried + (tasks.map Task.failures).sum
  failed : ∀ task ∈ tasks, Entries.get? task.code now.report.failed =
    task.phase.reason (Entries.get? task.code before.report.failed)
  kept : ∀ code, code ∉ codes →
    Entries.get? code now.report.failed = Entries.get? code before.report.failed

theorem set_self {α : Type} {xs : List α} {i : Nat} {x : α} (h : xs[i]? = some x) :
    xs.set i x = xs := by
  obtain ⟨hi, rfl⟩ := List.getElem?_eq_some_iff.mp h
  exact List.set_getElem_self hi

theorem sum_set {tasks : List Task} {i : Nat} {task : Task} (h : tasks[i]? = some task)
    (task' : Task) (f : Task → Nat) :
    ((tasks.set i task').map f).sum + f task = (tasks.map f).sum + f task' := by
  obtain ⟨hi, rfl⟩ := List.getElem?_eq_some_iff.mp h
  have hset := ((List.set_perm_cons_eraseIdx hi task').map f).sum_eq
  have hget := ((List.getElem_cons_eraseIdx_perm hi).map f).sum_eq
  simp only [List.map_cons, List.sum_cons] at hset hget
  omega

theorem sum_found (settled : List Settled) :
    ((settled.map Phase.settled).map Phase.found).sum = settled.countP Except.isOk := by
  induction settled with
  | nil => rfl
  | cons s rest ih =>
    rw [List.map_cons, List.map_cons, List.sum_cons, ih, List.countP_cons, Nat.add_comm]
    cases s <;> rfl

namespace Level

@[simp] theorem ledger_close (line : Timeline σ) (call : Nat) (how : CallEnd) :
    (line.close call how).ledger = line.ledger := by
  simp only [Timeline.ledger, Timeline.log, Timeline.close, Ledger.mk.injEq, true_and, and_true]
  apply List.ext_getElem?
  intro i
  simp only [List.getElem?_map, List.getElem?_modify]
  split
  · simp [Function.comp_def]
    rfl
  · simp

variable {l : Level σ} {i : Nat} {task : Task}

@[simp] theorem ledger_hangUp (call : Nat) (reply : Reply) :
    (l.hangUp call reply).line.ledger = l.line.ledger := by
  unfold hangUp release
  split <;> simp [last]

theorem pick_kept {order : Order σ} {e : Event} {held : Level σ}
    (h : l.pick order = some (e, held)) : held.tasks = l.tasks ∧ held.line = l.line := by
  simp only [pick, Option.map_eq_some_iff, Prod.mk.injEq] at h
  obtain ⟨_, _, _, rfl⟩ := h
  exact ⟨rfl, rfl⟩

@[simp] theorem tasks_ask : (l.ask i).tasks = l.tasks := by
  unfold ask
  split <;> rfl

@[simp] theorem ledger_ask : (l.ask i).line.ledger = l.line.ledger := by
  unfold ask
  split <;> rfl

@[simp] theorem ledger_paused (pause : Except NumberError (Option Number)) :
    (l.paused pause i task).line.ledger = l.line.ledger := by
  unfold paused
  split <;> rfl

/-- Cancelling the open requests leaves the books as they are. -/
theorem ledger_cancelled (l : Level σ) : l.cancelled.ledger = l.line.ledger := by
  simp only [cancelled, Timeline.ledger, Timeline.log, Timeline.cancelOpen, List.map_map,
    Ledger.mk.injEq, true_and, and_true]
  apply List.map_congr_left
  intro call _
  rw [Function.comp_apply]
  split <;> rfl

/-- The books do not change when a step ends the level. -/
theorem ledger_error {cancelAt : Option Binary64} {order : Order σ} {stop : Stop}
    {line : Timeline σ} (h : l.step t source cancelAt order = .error (stop, line)) :
    line.ledger = l.line.ledger := by
  unfold step at h
  split at h
  · rename_i e held hpick
    split at h <;> cases h
    rw [ledger_cancelled, (pick_kept hpick).2]
  · unfold wait at h
    split at h
    · cases h
      rw [ledger_cancelled]
    · split at h
      · cases h
      · split at h <;> cases h
        rw [ledger_cancelled]
        rfl

def pausing : Except NumberError (Option Number) → Phase
  | .error cause => .failed (.number cause)
  | .ok _ => .waiting

@[simp] theorem tasks_paused (pause : Except NumberError (Option Number)) :
    (l.paused pause i task).tasks = l.tasks.set i { task with phase := pausing pause } := by
  unfold paused
  split <;> rfl

@[simp] theorem tasks_enter (source : Source σ) : (l.enter source i task).tasks =
    l.tasks.set i { task with
      phase := .requesting l.line.calls.length (source task.code l.line.source).1 } := by
  simp only [enter]
  split <;> rfl

@[simp] theorem ledger_enter (source : Source σ) : (l.enter source i task).line.ledger =
    ⟨(source task.code l.line.source).2,
      l.line.log ++ [⟨task.code, (source task.code l.line.source).1.outcome⟩], l.line.report⟩ := by
  simp only [enter]
  split <;> simp [Timeline.ledger, Timeline.log, next, later, setTask, Call.asked]

end Level

namespace Accounted

variable {codes : List String} {before now now' : Ledger σ} {made extra : List Asked}
  {tasks : List Task} {i : Nat} {task task' : Task}

/-- One task goes on: it may have made requests, and the report may have changed for its code. -/
theorem set (h : Accounted t source codes before made tasks now) (hnodup : codes.Nodup)
    (htask : tasks[i]? = some task) (hcode : task'.code = task.code)
    (hlog : now'.log = now.log ++ extra) (hanswers : Answers source now.source extra now'.source)
    (hextra : ∀ a ∈ extra, a.code = task.code)
    (hstanding : Standing t i task'.phase task'.failures (outcomesFor task.code (made ++ extra)))
    (hfetched : now'.report.fetched + task.phase.found = now.report.fetched + task'.phase.found)
    (hretried : now'.report.retried + task.failures = now.report.retried + task'.failures)
    (hfailed : Entries.get? task.code now'.report.failed =
      task'.phase.reason (Entries.get? task.code before.report.failed))
    (hothers : ∀ code, code ≠ task.code →
      Entries.get? code now'.report.failed = Entries.get? code now.report.failed) :
    Accounted t source codes before (made ++ extra) (tasks.set i task') now' := by
  obtain ⟨hi, hget⟩ := List.getElem?_eq_some_iff.mp htask
  have hmem : task.code ∈ codes := by
    rw [← h.names, ← hget]
    exact List.mem_map_of_mem (List.getElem_mem hi)
  -- Codes are told apart by places, so the other tasks neither asked nor failed.
  have hne : ∀ j other, j ≠ i → tasks[j]? = some other → other.code ≠ task.code := by
    intro j other hj hother heq
    rw [← h.names] at hnodup
    refine hj ((List.getElem?_inj ?_ hnodup).mp ?_)
    · simpa using (List.getElem?_eq_some_iff.mp hother).1
    · simp [hother, htask, heq]
  refine ⟨?_, ?_, h.answers.append hanswers, ?_, ?_, ?_, ?_, ?_, ?_⟩
  · rw [← h.names, List.map_set, hcode]
    exact set_self (by simp [htask])
  · rw [hlog, h.log, List.append_assoc]
  · intro a ha
    rcases List.mem_append.mp ha with ha | ha
    · exact h.asked a ha
    · exact hextra a ha ▸ hmem
  · intro j other hother
    by_cases hij : j = i
    · subst hij
      rw [List.getElem?_set_self hi, Option.some.injEq] at hother
      subst hother
      rwa [hcode]
    · rw [List.getElem?_set_ne (Ne.symm hij)] at hother
      have hnone : outcomesFor other.code extra = [] := by
        apply outcomesFor_eq_nil
        intro a ha heq
        exact hne j other hij hother (heq.symm.trans (hextra a ha))
      rw [outcomesFor_append, hnone, List.append_nil]
      exact h.standing j other hother
  · have hsum := sum_set htask task' fun task => task.phase.found
    have := h.fetched
    omega
  · have hsum := sum_set htask task' Task.failures
    have := h.retried
    omega
  · intro other hother
    obtain ⟨j, hj⟩ := List.mem_iff_getElem?.mp hother
    by_cases hij : j = i
    · subst hij
      rw [List.getElem?_set_self hi, Option.some.injEq] at hj
      subst hj
      rwa [hcode]
    · rw [List.getElem?_set_ne (Ne.symm hij)] at hj
      rw [hothers _ (hne j other hij hj)]
      exact h.failed other (List.mem_of_getElem? hj)
  · intro code hcode
    rw [hothers code (fun heq => hcode (heq ▸ hmem)), h.kept code hcode]

theorem amend (h : Accounted t source codes before made tasks now) (hnodup : codes.Nodup)
    (htask : tasks[i]? = some task) (hcode : task'.code = task.code) (hlog : now'.log = now.log)
    (hsource : now'.source = now.source)
    (hstanding : Standing t i task'.phase task'.failures (outcomesFor task.code made))
    (hfetched : now'.report.fetched + task.phase.found = now.report.fetched + task'.phase.found)
    (hretried : now'.report.retried + task.failures = now.report.retried + task'.failures)
    (hfailed : Entries.get? task.code now'.report.failed =
      task'.phase.reason (Entries.get? task.code before.report.failed))
    (hothers : ∀ code, code ≠ task.code →
      Entries.get? code now'.report.failed = Entries.get? code now.report.failed) :
    Accounted t source codes before made (tasks.set i task') now' := by
  have hlog : now'.log = now.log ++ [] := by simp [hlog]
  have hset := h.set hnodup htask hcode hlog (hsource ▸ .nil) (by simp) (by simpa using hstanding)
    hfetched hretried hfailed hothers
  simpa using hset

variable {l : Level σ} {slots : Nat}

theorem begin (h : Accounted t source codes before made l.tasks l.line.ledger)
    (hnodup : codes.Nodup) (htask : l.tasks[i]? = some task) (hphase : task.phase = .idle) :
    Accounted t source codes before made (l.paused (t.pauseAt i) i task).tasks
      (l.paused (t.pauseAt i) i task).line.ledger := by
  have hstanding := h.standing i task htask
  obtain ⟨code, failures, phase⟩ := task
  cases hphase
  generalize houtcomes : outcomesFor code made = outcomes at hstanding
  cases hstanding
  rw [Level.tasks_paused, Level.ledger_paused]
  refine h.amend hnodup htask rfl rfl rfl ?_ ?_ rfl ?_ (fun _ _ => rfl)
  · rw [houtcomes]
    cases hpause : t.pauseAt i with
    | error cause => exact .failed (.place hpause)
    | ok pause => exact .waiting ⟨pause, hpause⟩ (retried_nil t)
  · cases t.pauseAt i <;> rfl
  · rw [h.failed _ (List.mem_of_getElem? htask)]
    cases t.pauseAt i <;> rfl

theorem enter (h : Accounted t source codes before made l.tasks l.line.ledger)
    (hnodup : codes.Nodup) (htask : l.tasks[i]? = some task) (hphase : task.phase = .waiting) :
    Accounted t source codes before
      (made ++ [⟨task.code, (source task.code l.line.source).1.outcome⟩])
      (l.enter source i task).tasks (l.enter source i task).line.ledger := by
  have hstanding := h.standing i task htask
  obtain ⟨code, failures, phase⟩ := task
  cases hphase
  generalize houtcomes : outcomesFor code made = outcomes at hstanding
  cases hstanding with
  | waiting hpause hretried =>
    rw [Level.tasks_enter, Level.ledger_enter]
    refine h.set hnodup htask rfl rfl (.single source code _) (by simp) ?_ rfl rfl ?_ (fun _ _ => rfl)
    · rw [outcomesFor_append, houtcomes, outcomesFor_cons_self]
      exact .requesting hpause hretried
    · exact h.failed _ (List.mem_of_getElem? htask)

theorem proceed {call : Nat} {reply : Reply}
    (h : Accounted t source codes before made l.tasks l.line.ledger) (hnodup : codes.Nodup)
    (htask : l.tasks[i]? = some task) (hphase : task.phase = .requesting call reply) :
    Accounted t source codes before made
      (l.proceed t i task (t.judge task.failures reply.outcome)).tasks
      (l.proceed t i task (t.judge task.failures reply.outcome)).line.ledger := by
  have hstanding := h.standing i task htask
  have hreason := h.failed task (List.mem_of_getElem? htask)
  obtain ⟨code, failures, phase⟩ := task
  cases hphase
  generalize houtcomes : outcomesFor code made = outcomes at hstanding
  cases hstanding with
  | @requesting earlier _ _ hpause hretried =>
    cases hjudge : t.judge earlier.length reply.outcome with
    | settled s =>
      simp only [Level.proceed]
      refine h.amend hnodup htask rfl rfl rfl ?_ ?_ ?_ ?_ ?_
      · rw [houtcomes]
        exact .settled hpause hretried hjudge
      · cases s <;> rfl
      · cases s <;> rfl
      · refine (Report.failed_settle_self _ code s).trans ?_
        cases s
        · rfl
        · exact hreason
      · intro other hne
        exact Report.failed_settle_of_ne hne _ s
    | again =>
      simp only [Level.proceed]
      rw [Level.tasks_paused, Level.ledger_paused]
      refine h.amend hnodup htask rfl rfl rfl ?_ ?_ ?_ ?_ (fun _ _ => rfl)
      · rw [houtcomes]
        cases hafter : t.pauseAfter earlier.length with
        | error cause => exact .failed (.pause hretried hjudge hafter)
        | ok pause =>
          have hwaiting := Standing.waiting hpause (hretried.snoc hjudge hafter)
          rw [List.length_append, List.length_singleton] at hwaiting
          exact hwaiting
      · cases t.pauseAfter earlier.length <;> rfl
      · simp only [Timeline.ledger, Report.retry]
        omega
      · refine hreason.trans ?_
        cases t.pauseAfter earlier.length <;> rfl
    | broken fault =>
      simp only [Level.proceed]
      refine h.amend hnodup htask rfl rfl rfl ?_ rfl rfl hreason (fun _ _ => rfl)
      rw [houtcomes]
      exact .failed (.fault hretried hjudge)

theorem happen {e : Event} {l' : Level σ}
    (h : Accounted t source codes before made l.tasks l.line.ledger) (hnodup : codes.Nodup)
    (horderly : l.Orderly slots [e]) (hhappen : Level.happen t source l e = .ok l') :
    ∃ made, Accounted t source codes before made l'.tasks l'.line.ledger := by
  cases e with
  | begin i =>
    simp only [Level.happen] at hhappen
    split at hhappen <;> cases hhappen
    · rename_i task htask
      exact ⟨made, h.begin hnodup htask (horderly.idle htask)⟩
    · exact ⟨made, h⟩
  | ask i =>
    cases hhappen
    exact ⟨made, by simpa using h⟩
  | enter i =>
    simp only [Level.happen] at hhappen
    split at hhappen <;> cases hhappen
    · rename_i task htask
      exact ⟨_, h.enter hnodup htask (horderly.waiting htask)⟩
    · exact ⟨made, h⟩
  | answer i =>
    simp only [Level.happen] at hhappen
    split at hhappen
    · rename_i task htask
      split at hhappen
      · rename_i call reply hphase
        cases hhappen
        refine ⟨made, proceed ?_ hnodup ?_ hphase⟩
        · simpa [Level.tasks_hangUp] using h
        · simpa [Level.tasks_hangUp] using htask
      · cases hhappen
        exact ⟨made, h⟩
    · cases hhappen
      exact ⟨made, h⟩
  | report fault =>
    cases hhappen
    exact ⟨made, h⟩
  | abort fault => cases hhappen

theorem step {cancelAt : Option Binary64} {order : Order σ} {l' : Level σ}
    (h : Accounted t source codes before made l.tasks l.line.ledger) (hnodup : codes.Nodup)
    (horderly : l.Orderly slots []) (hstep : l.step t source cancelAt order = .ok l') :
    ∃ made, Accounted t source codes before made l'.tasks l'.line.ledger := by
  rcases Level.step_ok hstep with ⟨e, held, hpick, hhappen⟩ | ⟨_, till, _, _, rfl⟩
  · obtain ⟨htasks, hline⟩ := Level.pick_kept hpick
    rw [← htasks, ← hline] at h
    exact h.happen hnodup (horderly.pick hpick) hhappen
  · exact ⟨made, h⟩

theorem ofCodes (t : Tuning) (source : Source σ) (codes : List String) (line : Timeline σ) :
    Accounted t source codes line.ledger [] (Level.ofCodes t codes line).tasks line.ledger := by
  have hzero : ∀ f : Task → Nat, (∀ code, f ⟨code, 0, .idle⟩ = 0) →
      ((codes.map fun code => Task.mk code 0 .idle).map f).sum = 0 := by
    intro f hf
    simp [Function.comp_def, hf]
  refine ⟨?_, by simp, .nil, by simp, ?_, ?_, ?_, ?_, fun _ _ => rfl⟩
  · simp [Level.ofCodes, Function.comp_def]
  · intro i task htask
    simp only [Level.ofCodes, List.getElem?_map, Option.map_eq_some_iff] at htask
    obtain ⟨code, _, rfl⟩ := htask
    exact .idle
  · simp only [Level.ofCodes, hzero (fun task => task.phase.found) fun _ => rfl, Nat.add_zero]
  · simp only [Level.ofCodes, hzero Task.failures fun _ => rfl, Nat.add_zero]
  · intro task htask
    obtain ⟨code, _, rfl⟩ := List.mem_map.mp htask
    rfl

theorem length_made {codes : List String} (hnodup : codes.Nodup) {made : List Asked}
    (hasked : ∀ a ∈ made, a.code ∈ codes) :
    made.length = (codes.map fun code => (outcomesFor code made).length).sum := by
  induction codes generalizing made with
  | nil =>
    cases made with
    | nil => rfl
    | cons a rest => cases hasked a List.mem_cons_self
  | cons code codes ih =>
    obtain ⟨hfresh, hrest⟩ := List.nodup_cons.mp hnodup
    have hothers : (made.filter fun a => a.code ≠ code).length =
        (codes.map fun other => (outcomesFor other made).length).sum := by
      rw [ih hrest]
      · congr 1
        apply List.map_congr_left
        intro other hother
        have hne : other ≠ code := fun h => hfresh (h ▸ hother)
        simp only [outcomesFor, List.filter_filter]
        congr 2
        apply List.filter_congr
        intro a _
        by_cases ha : a.code = other <;> simp [ha, hne]
      · intro a ha
        simp only [List.mem_filter, decide_eq_true_eq] at ha
        rcases List.mem_cons.mp (hasked a ha.1) with h | h
        · exact absurd h ha.2
        · exact h
    rw [List.map_cons, List.sum_cons, ← hothers]
    have := List.length_eq_length_filter_add (l := made) fun a => decide (a.code = code)
    simpa [outcomesFor] using this

theorem task_of_settled {settled : List Settled} {i : Nat} {code : String} {s : Settled}
    (h : Accounted t source codes before made tasks now)
    (hphases : tasks.map Task.phase = settled.map Phase.settled) (hcode : codes[i]? = some code)
    (hs : settled[i]? = some s) : ∃ failures, tasks[i]? = some ⟨code, failures, .settled s⟩ := by
  have hphase := congrArg (fun phases => phases[i]?) hphases
  simp only [List.getElem?_map, hs, Option.map_some, Option.map_eq_some_iff] at hphase
  rw [← h.names, List.getElem?_map, Option.map_eq_some_iff] at hcode
  obtain ⟨⟨_, failures, _⟩, htask, rfl⟩ := hcode
  obtain ⟨_, htask', hphase⟩ := hphase
  rw [htask, Option.some.injEq] at htask'
  subst htask'
  exact ⟨failures, by rw [htask, ← hphase]⟩

/-- A settled task has made one request for each failure, and one more. -/
theorem standing_of_settled {i : Nat} {code : String} {failures : Nat} {s : Settled}
    (h : Accounted t source codes before made tasks now)
    (htask : tasks[i]? = some ⟨code, failures, .settled s⟩) :
    (∃ pause, t.pauseAt i = .ok pause) ∧ Settles t (outcomesFor code made) s ∧
      (outcomesFor code made).length = failures + 1 := by
  have hstanding := h.standing i _ htask
  generalize outcomesFor code made = outcomes at hstanding ⊢
  cases hstanding with
  | settled hpause hretried hjudge =>
    exact ⟨hpause, ⟨_, _, rfl, hretried, hjudge⟩, by simp⟩

theorem settled {settled : List Settled}
    (h : Accounted t source codes before made tasks now) (hnodup : codes.Nodup)
    (hphases : tasks.map Task.phase = settled.map Phase.settled) :
    LevelSettled t source 0 codes settled made before now := by
  have hlength : tasks.length = codes.length := by
    simpa using congrArg List.length h.names
  have hlength' : tasks.length = settled.length := by
    simpa using congrArg List.length hphases
  refine ⟨h.log, h.answers, h.asked, by omega, ?_, ?_, ?_, ?_, ?_, h.kept⟩
  · intro i hi
    have hi' : i < settled.length := by omega
    obtain ⟨failures, htask⟩ := h.task_of_settled hphases (List.getElem?_eq_getElem hi)
      (List.getElem?_eq_getElem hi')
    rw [Nat.zero_add]
    exact (h.standing_of_settled htask).1
  · intro i code s hcode hs
    obtain ⟨failures, htask⟩ := h.task_of_settled hphases hcode hs
    exact (h.standing_of_settled htask).2.1
  · rw [h.fetched, ← sum_found settled, ← hphases, List.map_map]
    rfl
  · have hcounts : tasks.map (fun task => (outcomesFor task.code made).length) =
        tasks.map fun task => task.failures + 1 := by
      apply List.map_congr_left
      intro task hmem
      obtain ⟨i, hi⟩ := List.mem_iff_getElem?.mp hmem
      have hcode : codes[i]? = some task.code := by simp [← h.names, hi]
      have hi' : i < settled.length := hlength' ▸ (List.getElem?_eq_some_iff.mp hi).1
      obtain ⟨failures, htask⟩ := h.task_of_settled hphases hcode (List.getElem?_eq_getElem hi')
      rw [hi, Option.some.injEq] at htask
      rw [(h.standing_of_settled (htask ▸ hi)).2.2, htask]
    have hmade := length_made hnodup h.asked
    rw [← h.names, List.map_map, Function.comp_def, hcounts, List.sum_map_add, List.map_const',
      List.sum_replicate_nat, Nat.mul_one] at hmade
    have := h.retried
    omega
  · intro i code s hcode hs
    obtain ⟨failures, htask⟩ := h.task_of_settled hphases hcode hs
    rw [h.failed _ (List.mem_of_getElem? htask)]
    cases s <;> rfl

theorem broken {fault : Fault} {place : Nat}
    (h : Accounted t source codes before made l.tasks now)
    (hphase : l.phase? place = some (.failed fault)) :
    LevelBroken t source 0 codes before now (.fault fault) := by
  simp only [Level.phase?, Option.map_eq_some_iff] at hphase
  obtain ⟨⟨code, failures, phase⟩, htask, rfl⟩ := hphase
  have hstanding := h.standing place _ htask
  have hcode : codes[place]? = some code := by simp [← h.names, htask]
  refine ⟨fault, place, code, made, rfl, hcode, h.log, h.answers, ?_⟩
  rw [Nat.zero_add]
  generalize outcomesFor code made = outcomes at hstanding ⊢
  cases hstanding with
  | failed hbreaks => exact hbreaks

end Accounted

namespace Level

variable {slots : Nat} {codes : List String} {cancelAt : Option Binary64} {order : Order σ}
  {l l' : Level σ} {before : Ledger σ} {made : List Asked}

theorem run_of_results {settled : List Settled} (h : l.results? = some settled) :
    l.run t source cancelAt order = (.ok settled, l.line) := by
  rw [run]
  split
  · simp_all
  · simp_all

theorem run_of_ok (h : l.results? = none) (hstep : l.step t source cancelAt order = .ok l') :
    l.run t source cancelAt order = l'.run t source cancelAt order := by
  rw [run]
  split
  · simp_all
  · split
    · simp_all
    · simp_all

theorem run_of_error {stop : Stop} {line : Timeline σ} (h : l.results? = none)
    (hstep : l.step t source cancelAt order = .error (stop, line)) :
    l.run t source cancelAt order = (.error stop, line) := by
  rw [run]
  split
  · simp_all
  · split
    · simp_all
    · simp_all

/-- A run leaves the books of a level that was reached step by step, so what every step keeps holds of
that level. -/
theorem run_keeps {P : Level σ → Prop} (h : P l)
    (hkept : ∀ m m', P m → m.step t source cancelAt order = .ok m' → P m') :
    ∃ m, P m ∧ (l.run t source cancelAt order).2.ledger = m.line.ledger := by
  induction l using run.induct t source cancelAt order with
  | case1 l results hresults =>
    rw [run_of_results hresults]
    exact ⟨l, h, rfl⟩
  | case2 l hresults stop line hstep =>
    rw [run_of_error hresults hstep]
    exact ⟨l, h, ledger_error hstep⟩
  | case3 l hresults l' hstep ih =>
    rw [run_of_ok hresults hstep]
    exact ih (hkept l l' h hstep)

theorem step_broken {stop : Stop} {line : Timeline σ}
    (haccounted : Accounted t source codes before made l.tasks l.line.ledger)
    (horderly : l.Orderly slots []) (hslots : 0 < slots) (hresults : l.results? = none)
    (hstep : l.step t source none order = .error (stop, line)) :
    LevelBroken t source 0 codes before line.ledger stop := by
  unfold step at hstep
  split at hstep
  · rename_i e held hpick
    split at hstep
    · cases hstep
    · rename_i fault hhappen
      cases hstep
      have hheld := horderly.pick hpick
      obtain ⟨htasks, hline⟩ := pick_kept hpick
      rw [← htasks, ← hline] at haccounted
      cases e with
      | abort fault' =>
        cases hhappen
        obtain ⟨i, hphase⟩ := hheld.faults _ List.mem_cons_self _ rfl
        rw [← held.ledger_cancelled] at haccounted
        exact haccounted.broken hphase
      | _ => simp only [happen] at hhappen; grind
  · rename_i hpick
    obtain ⟨l', hwait⟩ := horderly.wait_ok hslots (ready_of_pick_none hpick) hresults
    rw [hwait] at hstep
    cases hstep

/-- What a level on schedule comes to: its queries are settled, or one of them ended the pass. -/
theorem run_spec (hnodup : codes.Nodup) (hslots : 0 < slots)
    (haccounted : Accounted t source codes before made l.tasks l.line.ledger)
    (horderly : l.Orderly slots []) :
    (∀ settled line, l.run t source cancelAt order = (.ok settled, line) →
      ∃ made, LevelSettled t source 0 codes settled made before line.ledger) ∧
    (∀ stop line, cancelAt = none → l.run t source cancelAt order = (.error stop, line) →
      LevelBroken t source 0 codes before line.ledger stop) := by
  induction l using run.induct t source cancelAt order generalizing made with
  | case1 l results hresults =>
    rw [run_of_results hresults]
    refine ⟨?_, fun _ _ _ h => (by cases h)⟩
    intro _ _ h
    cases h
    exact ⟨made, haccounted.settled hnodup (results?_eq_some_iff.mp hresults)⟩
  | case2 l hresults stop line hstep =>
    rw [run_of_error hresults hstep]
    refine ⟨fun _ _ h => (by cases h), ?_⟩
    intro _ _ hcancel h
    subst hcancel
    cases h
    exact step_broken haccounted horderly hslots hresults hstep
  | case3 l hresults l' hstep ih =>
    rw [run_of_ok hresults hstep]
    obtain ⟨made, hmade⟩ := haccounted.step hnodup horderly hstep
    exact ih hmade (horderly.step hstep)

end Level

variable {codes : List String} {cancelAt : Option Binary64} {order : Order σ} {line line' : Timeline σ}

theorem onSchedule_settled {settled : List Settled} (hnodup : codes.Nodup)
    (h : onSchedule t source cancelAt order codes line = (.ok settled, line')) :
    ∃ made, LevelSettled t source 0 codes settled made line.ledger line'.ledger :=
  (Level.run_spec hnodup t.concurrency_pos (.ofCodes t source codes line)
    (.ofCodes t codes line)).1 settled line' h

/-- A level that is not cancelled ends with a fault of one of its queries, if it does not settle. -/
theorem onSchedule_broken {stop : Stop} (hnodup : codes.Nodup)
    (h : onSchedule t source none order codes line = (.error stop, line')) :
    LevelBroken t source 0 codes line.ledger line'.ledger stop :=
  (Level.run_spec hnodup t.concurrency_pos (.ofCodes t source codes line)
    (.ofCodes t codes line)).2 stop line' rfl h

end AdminConsole.Resolve
