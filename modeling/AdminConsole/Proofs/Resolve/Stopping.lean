import AdminConsole.Proofs.Resolve.Completion
import AdminConsole.Proofs.Resolve.Spacing

/-!
Stopping. A pass that a fault ends stops at that instant: the calls that are still open are cut off,
and nothing is begun later, whatever the other tasks are waiting for. Of several faults the pass
ends with one, and with the first if events happen in the order they came.
-/

namespace AdminConsole.Resolve

variable {σ : Type} {t : Tuning} {source : Source σ} {cancelAt : Option Binary64} {order : Order σ}
  {depth : Nat} {parent : String} {s : σ}

section Clock

variable {codes : List String} {before : Timeline σ}

/-- The clock does not go back in a run. -/
theorem Level.now_le_run {l : Level σ} (hnodup : codes.Nodup)
    (horderly : l.Orderly t.maxConcurrency [])
    (hclocked : ∃ made, l.Clocked t codes before made none) :
    l.line.now ≤ (l.run t source cancelAt order).2.now := by
  induction l using run.induct t source cancelAt order with
  | case1 l results hresults =>
    obtain ⟨made, hclocked⟩ := hclocked
    rw [run_of_results hresults]
    exact hclocked.number
  | case2 l hresults stop line hstep =>
    obtain ⟨made, hclocked⟩ := hclocked
    rw [run_of_error hresults hstep]
    have hlast := horderly.last_of_error t.concurrency_pos hresults hstep
    cases hlast with
    | aborted => exact hclocked.number
    | cancelled => exact Binary64.le_latest_left hclocked.number _
  | case3 l hresults l' hstep ih =>
    obtain ⟨made, hclocked⟩ := hclocked
    rw [run_of_ok hresults hstep]
    exact Binary64.le_trans (hclocked.now_le_step hstep)
      (ih (horderly.step hstep) (hclocked.step hnodup horderly hstep))

theorem now_le_onSchedule (hnodup : codes.Nodup) (hbefore : before.now ≤ before.now) :
    before.now ≤ (onSchedule t source cancelAt order codes before).2.now :=
  Level.now_le_run hnodup (.ofCodes t codes before) ⟨[], .ofCodes t codes hbefore⟩

theorem Linked.now_le {state last : Timeline σ} {rs : List (Round (Timeline σ))}
    (h : Linked (onSchedule t source cancelAt order) state rs last) (hstate : state.Rested) :
    state.now ≤ last.now ∧ ∀ r ∈ rs, r.after.now ≤ last.now := by
  induction h with
  | none => exact ⟨hstate.number, by simp⟩
  | @settled codes state settled between rest last hnodup hgather _ ih =>
    have hround : state.now ≤ (onSchedule t source cancelAt order codes state).2.now :=
      now_le_onSchedule hnodup hstate.number
    rw [hgather] at hround
    obtain ⟨hle, hrest⟩ := ih (hstate.round hnodup hgather)
    refine ⟨Binary64.le_trans hround hle, fun r hr => ?_⟩
    rcases List.mem_cons.mp hr with rfl | hr
    · exact hle
    · exact hrest r hr
  | @stopped codes state stop last hnodup hgather =>
    have hround : state.now ≤ (onSchedule t source cancelAt order codes state).2.now :=
      now_le_onSchedule hnodup hstate.number
    rw [hgather] at hround
    refine ⟨hround, fun r hr => ?_⟩
    obtain rfl := List.mem_singleton.mp hr
    exact Binary64.le_right hround

/-- No moment of a pass comes after its end. -/
theorem Moment.now_le {m : Level σ} (h : Moment t source cancelAt order depth parent s m) :
    m.line.now ≤ (timedPass t source cancelAt order depth parent s).2.now := by
  obtain ⟨r, hr, hreaches⟩ := h
  have hlinked := linked_timedRounds t source cancelAt order depth parent s
  obtain ⟨hnodup, hgather⟩ := hlinked.gathered hr
  obtain ⟨horderly, hclocked⟩ := hreaches.clocked hnodup (rested_before r hr).number
  have hrun : m.line.now ≤ (m.run t source cancelAt order).2.now :=
    Level.now_le_run hnodup horderly hclocked
  rw [← hreaches.run_eq] at hrun
  change _ ≤ (onSchedule t source cancelAt order r.codes r.before).2.now at hrun
  rw [hgather] at hrun
  exact Binary64.le_trans hrun ((hlinked.now_le (rested_start s)).2 r hr)

end Clock

/-- A pass is over at an instant. No moment of it comes later, so nothing is begun later; every call
has ended by then; and the calls that were open at the last moment are cut off at the instant. -/
structure OverAt (t : Tuning) (source : Source σ) (cancelAt : Option Binary64) (order : Order σ)
    (depth : Nat) (parent : String) (s : σ) (instant : Binary64) : Prop where
  clock : (timedPass t source cancelAt order depth parent s).2.now = instant
  moments : ∀ m, Moment t source cancelAt order depth parent s m → m.line.now ≤ instant
  calls : ∀ c ∈ (timedPass t source cancelAt order depth parent s).2.calls, ∃ ended how,
    c.finish = some (ended, how) ∧ c.start ≤ ended ∧ ended ≤ instant ∧
      (how = .cancelled → ended = instant)
  last : ∃ m, Moment t source cancelAt order depth parent s m ∧
    (timedPass t source cancelAt order depth parent s).2.calls =
      m.line.calls.map (Call.cutOff instant) ∧
    (timedPass t source cancelAt order depth parent s).2.pauses = m.line.pauses

theorem overAt_of_stopped {r : Round (Timeline σ)} {stop : Stop} {m : Level σ} {made : List Call}
    {instant : Binary64} (hr : r ∈ timedRounds t source cancelAt order depth parent s)
    (hreaches : (Level.ofCodes t r.codes r.before).Reaches t source cancelAt order m)
    (hclocked : m.Clocked t r.codes r.before made none) (hstop : r.outcome = .error stop)
    (hafter : r.after = Timeline.cancelOpen { m.line with now := instant })
    (hinstant : m.line.now ≤ instant) :
    OverAt t source cancelAt order depth parent s instant := by
  have hlinked := linked_timedRounds t source cancelAt order depth parent s
  have hend : (timedPass t source cancelAt order depth parent s).2 =
      Timeline.cancelOpen { m.line with now := instant } :=
    (hlinked.after_of_stopped hr hstop).symm.trans hafter
  have hclock : (timedPass t source cancelAt order depth parent s).2.now = instant := by
    rw [hend]
    rfl
  have hcalls : (timedPass t source cancelAt order depth parent s).2.calls =
      m.line.calls.map (Call.cutOff instant) := by
    rw [hend]
    rfl
  refine ⟨hclock, fun m' hm' => hclock ▸ hm'.now_le, fun x hx => ?_, m, ⟨r, hr, hreaches⟩, hcalls,
    by rw [hend]; rfl⟩
  rw [hcalls] at hx
  obtain ⟨c, hc, rfl⟩ := List.mem_map.mp hx
  obtain ⟨hstart, hended⟩ := hclocked.times (rested_before r hr) hc
  cases hfinish : c.finish with
  | none =>
    refine ⟨instant, .cancelled, by simp [Call.cutOff, hfinish], ?_, Binary64.le_right hinstant,
      fun _ => rfl⟩
    rw [Call.start_cutOff]
    exact Binary64.le_trans hstart hinstant
  | some finish =>
    obtain ⟨ended, how⟩ := finish
    obtain ⟨hstart, hended, hhow⟩ := hended ended how hfinish
    rw [Call.cutOff_of_closed instant (by simp [hfinish])]
    exact ⟨ended, how, hfinish, hstart, Binary64.le_trans hended hinstant, fun h => absurd h hhow⟩

/-- Not all tasks of a level are settled while a fault is on its way. -/
theorem Level.Orderly.results_of_fault {slots : Nat} {l : Level σ} {e : Event}
    (h : l.Orderly slots []) (he : e ∈ l.ready) (hfault : e.fault?.isSome) : l.results? = none := by
  obtain ⟨fault, hfault⟩ := Option.isSome_iff_exists.mp hfault
  obtain ⟨i, hfailed⟩ := h.faults e (by simp [Level.events, Level.scheduled, he]) fault hfault
  by_contra hsome
  obtain ⟨settled, hresults⟩ := Option.ne_none_iff_exists'.mp hsome
  have hphase := congrArg (fun phases => phases[i]?) (Level.results?_eq_some_iff.mp hresults)
  simp only [List.getElem?_map] at hphase
  rw [Level.phase?, hphase, Option.map_eq_some_iff] at hfailed
  obtain ⟨_, _, hfailed⟩ := hfailed
  cases hfailed

section Abort

variable {fault : Fault} {codes : List String} {before : Timeline σ} {made : List Call}
  {m : Level σ} {c : Call}

theorem Tried.judged {place : Nat} {began due : Binary64} {calls : List Call}
    (h : Tried t place began calls due) : ∀ c ∈ calls, ∃ failures,
      t.judge failures c.outcome = .again := by
  induction h with
  | first => simp
  | again _ _ _ hjudge _ ih =>
    intro c hc
    rcases List.mem_append.mp hc with hc | hc
    · exact ih c hc
    · obtain rfl := List.mem_singleton.mp hc
      exact ⟨_, hjudge⟩

/-- A fault that a query fails with at an instant: a call has just raised it, or it says that a
pause cannot be made. -/
inductive Raised (t : Tuning) (calls : List Call) (instant : Binary64) : Fault → Prop where
  | call {c : Call} {how : CallEnd} {fault : Fault} : c ∈ calls → c.outcome = .error fault →
    c.finish = some (instant, how) → how ≠ .cancelled → Raised t calls instant fault
  | place {place : Nat} {cause : NumberError} : t.pauseAt place = .error cause →
    Raised t calls instant (.number cause)
  | pause {failures : Nat} {cause : NumberError} : t.pauseAfter failures = .error cause →
    Raised t calls instant (.number cause)

theorem Raised.mono {calls calls' : List Call} {instant : Binary64}
    (h : Raised t calls instant fault)
    (hsub : ∀ c ∈ calls, c.finish ≠ none → c ∈ calls') : Raised t calls' instant fault := by
  cases h with
  | call hc houtcome hfinish hhow =>
    exact .call (hsub _ hc (by simp [hfinish])) houtcome hfinish hhow
  | place hpause => exact .place hpause
  | pause hpause => exact .pause hpause

namespace Level.Clocked

variable (h : m.Clocked t codes before made none)
include h

theorem course_of_mem (hc : c ∈ made) : ∃ i task, m.tasks[i]? = some task ∧
    c ∈ callsFor task.code made ∧ Course t i before.now m.line.now (m.Awaits i) task.phase
      task.failures (callsFor task.code made) := by
  obtain ⟨i, hi⟩ := List.mem_iff_getElem?.mp (h.asked c hc)
  rw [← h.names, List.getElem?_map, Option.map_eq_some_iff] at hi
  obtain ⟨task, htask, hcode⟩ := hi
  exact ⟨i, task, htask, mem_callsFor.mpr ⟨hc, hcode.symm⟩, h.courses i task nofun htask⟩

/-- A call with a fault that concerns more than its query has just ended, and its task has failed. -/
theorem failed_of_fault (hc : c ∈ made) (houtcome : c.outcome = .error fault)
    (hfault : ∀ e, fault ≠ .fetch e) (hclosed : c.finish ≠ none) :
    ∃ i how, m.phase? i = some (.failed fault) ∧ c.finish = some (m.line.now, how) := by
  obtain ⟨i, ⟨code, failures, phase⟩, htask, hmem, hcourse⟩ := h.course_of_mem hc
  have hbroken : ∀ failures, t.judge failures c.outcome = .broken fault := by
    rw [houtcome]
    exact judge_of_fault hfault
  have hearlier : ∀ {calls due}, Tried t i before.now calls due → c ∉ calls := by
    intro calls due htried hmem
    obtain ⟨failures, hagain⟩ := htried.judged c hmem
    rw [hbroken] at hagain
    cases hagain
  have hphase : m.phase? i = some phase := by rw [phase?, htask, Option.map_some]
  dsimp only at hcourse hmem
  generalize callsFor code made = calls at hcourse hmem
  cases hcourse with
  | idle | unplaced => cases hmem
  | waiting htried => exact absurd hmem (hearlier htried)
  | requesting htried _ _ hopen =>
    rcases List.mem_append.mp hmem with hmem | hmem
    · exact absurd hmem (hearlier htried)
    · obtain rfl := List.mem_singleton.mp hmem
      exact absurd hopen hclosed
  | settled htried _ _ hjudge | unpaused htried _ _ hjudge =>
    rcases List.mem_append.mp hmem with hmem | hmem
    · exact absurd hmem (hearlier htried)
    · obtain rfl := List.mem_singleton.mp hmem
      rw [hbroken] at hjudge
      cases hjudge
  | broken htried _ hfinish hjudge =>
    rcases List.mem_append.mp hmem with hmem | hmem
    · exact absurd hmem (hearlier htried)
    · obtain rfl := List.mem_singleton.mp hmem
      rw [hbroken] at hjudge
      cases hjudge
      exact ⟨i, _, hphase, hfinish⟩

theorem raised_of_failed {i : Nat} (hphase : m.phase? i = some (.failed fault)) :
    Raised t made m.line.now fault := by
  simp only [phase?, Option.map_eq_some_iff] at hphase
  obtain ⟨⟨code, failures, phase⟩, htask, rfl⟩ := hphase
  have hcourse := h.courses i _ (Option.some_ne_none i).symm htask
  have hmem : ∀ c ∈ callsFor code made, c ∈ made := fun c hc => (mem_callsFor.mp hc).1
  dsimp only at hcourse
  generalize callsFor code made = calls at hcourse hmem
  cases hcourse with
  | unplaced hpause => exact .place hpause
  | unpaused _ _ _ _ hpause => exact .pause hpause
  | broken _ _ hfinish hjudge =>
    have hlast := hmem _ (List.mem_append_right _ List.mem_cons_self)
    have hhow := ((h.within _ hlast).finish _ _ hfinish).2.2
    exact .call hlast (error_of_judge hjudge).1 hfinish hhow

end Level.Clocked

/-- A task has failed where a call with a fault that concerns more than its query has ended, and its
level goes no further. -/
theorem failed_of_raised {instant : Binary64} {how : CallEnd}
    (hc : c ∈ (timedPass t source cancelAt order depth parent s).2.calls)
    (houtcome : c.outcome = .error fault) (hfault : ∀ e, fault ≠ .fetch e)
    (hfinish : c.finish = some (instant, how)) (hhow : how ≠ .cancelled) :
    ∃ r ∈ timedRounds t source cancelAt order depth parent s, ∃ m made i,
      (Level.ofCodes t r.codes r.before).Reaches t source cancelAt order m ∧
      m.Last cancelAt (r.outcome, r.after) ∧ m.Orderly t.maxConcurrency [] ∧
      m.Clocked t r.codes r.before made none ∧ m.phase? i = some (.failed fault) ∧
      m.line.now = instant := by
  have hlinked := linked_timedRounds t source cancelAt order depth parent s
  rw [hlinked.calls_eq (rested_start s)] at hc
  obtain ⟨_, hround, hc⟩ := List.mem_flatten.mp hc
  obtain ⟨r, hr, rfl⟩ := List.mem_map.mp hround
  obtain ⟨hnodup, hgather⟩ := hlinked.gathered hr
  obtain ⟨m, made, made', hreaches, hlast, horderly, hclocked, hcalls, hmade'⟩ :=
    onSchedule_calls hnodup (rested_before r hr) hgather
  rw [Round.made, hcalls, List.drop_left] at hc
  have hmem : c ∈ made := by
    rcases hmade' with rfl | ⟨cut, rfl⟩
    · exact hc
    · obtain ⟨c', hc', rfl⟩ := List.mem_map.mp hc
      cases hopen : c'.finish with
      | none =>
        simp only [Call.cutOff, hopen, Option.isNone_none, if_true, Option.some.injEq,
          Prod.mk.injEq] at hfinish
        exact absurd hfinish.2.symm hhow
      | some finish => rwa [Call.cutOff_of_closed cut (by simp [hopen])]
  obtain ⟨i, how', hfailed, hnow⟩ :=
    hclocked.failed_of_fault hmem houtcome hfault (by simp [hfinish])
  rw [hfinish, Option.some.injEq, Prod.mk.injEq] at hnow
  exact ⟨r, hr, m, made, i, hreaches, hlast, horderly, hclocked, hfailed, hnow.1.symm⟩

/-- A pass in which a call raised a fault that concerns more than its query is over at once. -/
theorem timedPass_aborted {instant : Binary64} {how : CallEnd}
    (hc : c ∈ (timedPass t source cancelAt order depth parent s).2.calls)
    (houtcome : c.outcome = .error fault) (hfault : ∀ e, fault ≠ .fetch e)
    (hfinish : c.finish = some (instant, how)) (hhow : how ≠ .cancelled) :
    (∃ fault', (timedPass t source cancelAt order depth parent s).1 =
        .error (.stopped (.fault fault')) ∧
      Raised t (timedPass t source cancelAt order depth parent s).2.calls instant fault') ∧
    OverAt t source cancelAt order depth parent s instant := by
  have hlinked := linked_timedRounds t source cancelAt order depth parent s
  obtain ⟨r, hr, m, made, i, hreaches, hlast, horderly, hclocked, hfailed, rfl⟩ :=
    failed_of_raised hc houtcome hfault hfinish hhow
  obtain ⟨e, he, halarm⟩ := horderly.alarm i fault hfailed
  generalize hend : (r.outcome, r.after) = result at hlast
  cases hlast with
  | settled hresults =>
    rw [horderly.results_of_fault he halarm] at hresults
    cases hresults
  | @aborted fault' hresults habort =>
    obtain ⟨hstop, hafter⟩ := Prod.mk.inj hend
    obtain ⟨j, hfailed'⟩ := horderly.faults (.abort fault')
      (by simp [Level.events, Level.scheduled, habort]) fault' rfl
    have hraised := hclocked.raised_of_failed hfailed'
    refine ⟨⟨fault', forest_of_stopped hstop hr, hraised.mono fun x hx hclosed => ?_⟩,
      overAt_of_stopped hr hreaches hclocked hstop hafter hclocked.number⟩
    rw [← hlinked.after_of_stopped hr hstop, hafter, calls_cancelOpen, hclocked.calls, List.mem_map]
    exact ⟨x, List.mem_append_right _ hx, Call.cutOff_of_closed _ hclosed⟩
  | cancelled _ hready =>
    rw [hready] at he
    cases he

end Abort

section First

/-- The fault of an event that ends the pass. -/
def Event.noticed? : Event → Option Fault
  | .abort fault => some fault
  | _ => none

/-- The fault of an event that is yet to be noticed. -/
def Event.reported? : Event → Option Fault
  | .report fault => some fault
  | _ => none

/-- The fault that comes first among events that happen in their order. -/
def firstFault (events : List Event) : Option Fault :=
  (events.findSome? Event.noticed?).or (events.findSome? Event.reported?)

theorem mem_of_firstFault {events : List Event} {fault : Fault}
    (h : firstFault events = some fault) : ∃ e ∈ events, e.fault? = some fault := by
  rw [firstFault, Option.or_eq_some_iff] at h
  rcases h with h | ⟨_, h⟩ <;> obtain ⟨e, he, hfault⟩ := List.exists_of_findSome?_eq_some h <;>
    exact ⟨e, he, by cases e <;> first | cases hfault; rfl | cases hfault⟩

theorem exists_firstFault {events : List Event} {e : Event} (he : e ∈ events)
    (hfault : e.fault?.isSome) : ∃ fault, firstFault events = some fault := by
  rw [← Option.isSome_iff_exists, firstFault, Option.isSome_or, Bool.or_eq_true,
    List.findSome?_isSome_iff, List.findSome?_isSome_iff]
  cases e with
  | abort fault => exact .inl ⟨_, he, rfl⟩
  | report fault => exact .inr ⟨_, he, rfl⟩
  | _ => cases hfault

/-- Events that came to others: in front of them only turns of tasks, behind them no fault that was
noticed before. -/
def Grown (events events' : List Event) : Prop :=
  ∃ front back, events' = front ++ events ++ back ∧ (∀ e ∈ front, e.fault? = none) ∧
    ∀ e ∈ back, e.noticed? = none

namespace Grown

variable {a b c : List Event}

theorem refl (a : List Event) : Grown a a := ⟨[], [], by simp, by simp, by simp⟩

theorem front {e : Event} (h : e.fault? = none) (a : List Event) : Grown a (e :: a) :=
  ⟨[e], [], by simp, by simpa using h, by simp⟩

theorem back {e : Event} (h : e.noticed? = none) (a : List Event) : Grown a (a ++ [e]) :=
  ⟨[], [e], by simp, by simp, by simpa using h⟩

theorem trans (h : Grown a b) (h' : Grown b c) : Grown a c := by
  obtain ⟨front, back, rfl, hfront, hback⟩ := h
  obtain ⟨front', back', rfl, hfront', hback'⟩ := h'
  refine ⟨front' ++ front, back ++ back', by simp, fun e he => ?_, fun e he => ?_⟩
  · rcases List.mem_append.mp he with he | he
    · exact hfront' e he
    · exact hfront e he
  · rcases List.mem_append.mp he with he | he
    · exact hback e he
    · exact hback' e he

theorem firstFault_eq {fault : Fault} (h : Grown a b) (hfirst : firstFault a = some fault) :
    firstFault b = some fault := by
  obtain ⟨front, back, rfl, hfront, hback⟩ := h
  have hnoticed : front.findSome? Event.noticed? = none := by
    rw [List.findSome?_eq_none_iff]
    intro e he
    cases e <;> first | rfl | cases hfront _ he
  have hreported : front.findSome? Event.reported? = none := by
    rw [List.findSome?_eq_none_iff]
    intro e he
    cases e <;> first | rfl | cases hfront _ he
  have hlate : back.findSome? Event.noticed? = none := List.findSome?_eq_none_iff.mpr hback
  unfold firstFault at hfirst ⊢
  simp only [List.findSome?_append, hnoticed, hreported, hlate, Option.none_or, Option.or_none]
  rw [← Option.or_assoc, hfirst, Option.some_or]

end Grown

namespace Level

variable {l l' : Level σ} {i : Nat} {task : Task} {e : Event}

theorem grown_fail (fault : Fault) : Grown l.ready (l.fail i task fault).ready :=
  .back rfl l.ready

theorem grown_paused (pause : Except NumberError (Option Number)) :
    Grown l.ready (l.paused pause i task).ready := by
  unfold paused
  split
  · exact grown_fail _
  · exact .front rfl l.ready
  · exact .refl l.ready

theorem grown_hangUp (call : Nat) (reply : Reply) :
    Grown l.ready (l.hangUp call reply).ready := by
  unfold hangUp release
  split
  · exact .refl l.ready
  · exact .back rfl l.ready

theorem grown_proceed (verdict : Verdict) : Grown l.ready (l.proceed t i task verdict).ready := by
  unfold proceed
  split
  · exact .refl l.ready
  · exact grown_paused _
  · exact grown_fail _

/-- A turn of a task does not get in front of a fault. -/
theorem grown_happen (h : happen t source l e = .ok l') (hfault : e.fault? = none) :
    Grown l.ready l'.ready := by
  cases e with
  | begin i =>
    simp only [happen] at h
    split at h <;> cases h
    · exact grown_paused _
    · exact .refl _
  | ask i =>
    cases h
    unfold ask
    split
    · exact .front rfl l.ready
    · exact .refl _
  | enter i =>
    simp only [happen] at h
    split at h <;> cases h
    · rename_i task _
      obtain ⟨line, _, _, _, henter⟩ := enter_eq source l i task
      rcases henter with henter | ⟨delay, henter⟩ <;> rw [henter]
      · exact .front rfl l.ready
      · exact .refl l.ready
    · exact .refl _
  | answer i =>
    simp only [happen] at h
    split at h
    · split at h <;> cases h
      · exact (grown_hangUp _ _).trans (grown_proceed _)
      · exact .refl _
    · cases h
      exact .refl _
  | report fault | abort fault => cases hfault

theorem phase?_ofCodes (codes : List String) (line : Timeline σ) (i : Nat) :
    (ofCodes t codes line).phase? i = codes[i]?.map fun _ => .idle := by
  simp [phase?, ofCodes, Function.comp_def]

theorem tasks_proceed (verdict : Verdict) :
    ∃ task', (l.proceed t i task verdict).tasks = l.tasks.set i task' := by
  unfold proceed
  split
  · exact ⟨_, rfl⟩
  · exact ⟨_, tasks_paused _⟩
  · exact ⟨_, rfl⟩

/-- An event changes one task at most. -/
theorem happen_elsewhere (h : happen t source l e = .ok l') :
    ∃ i : Nat, ∀ j ≠ i, l'.tasks[j]? = l.tasks[j]? := by
  have hunchanged : ∃ i : Nat, ∀ j ≠ i, l.tasks[j]? = l.tasks[j]? := ⟨0, fun _ _ => rfl⟩
  cases e with
  | begin i =>
    simp only [happen] at h
    split at h <;> cases h
    · refine ⟨i, fun j hj => ?_⟩
      rw [tasks_paused, List.getElem?_set_ne (Ne.symm hj)]
    · exact hunchanged
  | ask i =>
    cases h
    rwa [tasks_ask]
  | enter i =>
    simp only [happen] at h
    split at h <;> cases h
    · refine ⟨i, fun j hj => ?_⟩
      rw [tasks_enter, List.getElem?_set_ne (Ne.symm hj)]
    · exact hunchanged
  | answer i =>
    simp only [happen] at h
    split at h
    · split at h <;> cases h
      · refine ⟨i, fun j hj => ?_⟩
        obtain ⟨_, htasks⟩ := tasks_proceed _
        rw [htasks, List.getElem?_set_ne (Ne.symm hj), tasks_hangUp]
      · exact hunchanged
    · cases h
      exact hunchanged
  | report fault =>
    cases h
    exact hunchanged
  | abort fault => cases h

theorem step_elsewhere (h : l.step t source cancelAt order = .ok l') :
    ∃ i, ∀ j ≠ i, l'.phase? j = l.phase? j := by
  rcases step_ok h with ⟨event, held, hpick, hhappen⟩ | ⟨_, till, _, _, rfl⟩
  · obtain ⟨i, hothers⟩ := happen_elsewhere hhappen
    refine ⟨i, fun j hj => ?_⟩
    rw [phase?, phase?, hothers j hj, (pick_kept hpick).1]
  · exact ⟨0, fun _ _ => rfl⟩

theorem pick_firstCome {rest : List Event} (h : l.ready = e :: rest) :
    l.pick firstCome = some (e, { l with ready := rest }) := by
  simp [pick, firstCome, h]

/-- While a fault is on its way no other one gets in front of it. -/
theorem firstFault_step {fault : Fault} (h : firstFault l.ready = some fault)
    (hstep : l.step t source cancelAt firstCome = .ok l') : firstFault l'.ready = some fault := by
  obtain ⟨_, he, _⟩ := mem_of_firstFault h
  obtain ⟨head, rest, hready⟩ := List.exists_cons_of_ne_nil (List.ne_nil_of_mem he)
  rw [hready] at h
  simp only [step, pick_firstCome hready] at hstep
  split at hstep <;> cases hstep
  rename_i hhappen
  by_cases hturn : head.fault? = none
  · refine (grown_happen hhappen hturn).firstFault_eq ?_
    cases head <;> first | exact h | cases hturn
  · cases head with
    | report cause =>
      cases hhappen
      simp only [firstFault, last, List.findSome?_append, List.findSome?_cons, Event.noticed?,
        Event.reported?, List.findSome?_nil] at h ⊢
      rw [Option.or_some] at h
      cases hnoticed : rest.findSome? Event.noticed? <;> simp_all
    | abort cause => cases hhappen
    | _ => exact absurd rfl hturn

/-- In their order, the events bring the fault that comes first. -/
theorem run_of_firstFault {slots : Nat} {fault : Fault} (horderly : l.Orderly slots [])
    (h : firstFault l.ready = some fault) :
    ∃ line, l.run t source cancelAt firstCome = (.error (.fault fault), line) := by
  induction l using run.induct t source cancelAt firstCome with
  | case1 l results hresults =>
    obtain ⟨e, he, hfault⟩ := mem_of_firstFault h
    rw [horderly.results_of_fault he (by simp [hfault])] at hresults
    cases hresults
  | case2 l hresults stop line hstep =>
    rw [run_of_error hresults hstep]
    obtain ⟨_, he, _⟩ := mem_of_firstFault h
    obtain ⟨head, rest, hready⟩ := List.exists_cons_of_ne_nil (List.ne_nil_of_mem he)
    rw [hready] at h
    simp only [step, pick_firstCome hready] at hstep
    split at hstep <;> cases hstep
    rename_i hhappen
    obtain rfl := abort_of_happen hhappen
    cases h
    exact ⟨_, rfl⟩
  | case3 l hresults l' hstep ih =>
    rw [run_of_ok hresults hstep]
    exact ih (horderly.step hstep) (firstFault_step h hstep)

end Level

/-- A task fails first in a pass: at some moment it is the only one that has failed. -/
def FailsFirst (t : Tuning) (source : Source σ) (cancelAt : Option Binary64) (order : Order σ)
    (depth : Nat) (parent : String) (s : σ) (fault : Fault) : Prop :=
  ∃ m i, Moment t source cancelAt order depth parent s m ∧ m.phase? i = some (.failed fault) ∧
    ∀ j fault', m.phase? j = some (.failed fault') → j = i

/-- Where a task has failed one has failed first. -/
theorem exists_failsFirst {m : Level σ} {i : Nat} {fault : Fault}
    (hm : Moment t source cancelAt order depth parent s m)
    (hfailed : m.phase? i = some (.failed fault)) :
    ∃ first, FailsFirst t source cancelAt order depth parent s first := by
  obtain ⟨r, hr, hreaches⟩ := hm
  induction hreaches generalizing i fault with
  | start =>
    rw [Level.phase?_ofCodes] at hfailed
    cases hcode : r.codes[i]? <;> simp [hcode] at hfailed
  | @step m m' hreaches hresults hstep ih =>
    by_cases hearlier : ∃ j fault', m.phase? j = some (.failed fault')
    · obtain ⟨j, fault', hj⟩ := hearlier
      exact ih hj
    · -- The step makes one task fail at most, so the one that has failed now is the only one.
      obtain ⟨changed, hothers⟩ := Level.step_elsewhere hstep
      have honly : ∀ j fault', m'.phase? j = some (.failed fault') → j = changed := by
        intro j fault' hj
        by_contra hne
        exact hearlier ⟨j, fault', (hothers j hne).symm.trans hj⟩
      obtain rfl := honly i fault hfailed
      exact ⟨fault, m', i, ⟨r, hr, hreaches.step hresults hstep⟩, hfailed, honly⟩

/-- While events happen in the order they came, the pass ends with the fault of the task that
fails first. -/
theorem timedPass_first {fault : Fault}
    (h : FailsFirst t source cancelAt firstCome depth parent s fault) :
    (timedPass t source cancelAt firstCome depth parent s).1 =
      .error (.stopped (.fault fault)) := by
  obtain ⟨m, i, hm, hfailed, honly⟩ := h
  have hlinked := linked_timedRounds t source cancelAt firstCome depth parent s
  obtain ⟨r, hr, hreaches⟩ := hm
  obtain ⟨hnodup, hgather⟩ := hlinked.gathered hr
  obtain ⟨horderly, _⟩ := hreaches.clocked hnodup (rested_before r hr).number
  obtain ⟨e, he, halarm⟩ := horderly.alarm i fault hfailed
  obtain ⟨fault', hfirst⟩ := exists_firstFault he halarm
  obtain rfl : fault = fault' := by
    obtain ⟨e', he', hfault'⟩ := mem_of_firstFault hfirst
    obtain ⟨j, hj⟩ := horderly.faults e' (by
      simp only [List.nil_append] at he'
      simp [Level.events, Level.scheduled, he']) fault' hfault'
    obtain rfl := honly j fault' hj
    rw [hfailed, Option.some.injEq, Phase.failed.injEq] at hj
    exact hj
  obtain ⟨line, hrun⟩ : ∃ line, m.run t source cancelAt firstCome = (.error (.fault fault), line) :=
    Level.run_of_firstFault horderly hfirst
  rw [onSchedule, hreaches.run_eq, hrun] at hgather
  exact forest_of_stopped (Prod.mk.inj hgather).1.symm hr

end First

end AdminConsole.Resolve
