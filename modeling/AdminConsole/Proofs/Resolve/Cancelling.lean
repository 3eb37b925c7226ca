import AdminConsole.Proofs.Resolve.Slots
import AdminConsole.Proofs.Resolve.Stopping

/-!
Cancelling. Until the instant at which it is cancelled a pass goes on as if nothing would cancel it.
If it is still running then it stops there like a pass that a fault ends.
-/

namespace AdminConsole.Resolve

variable {σ : Type} {t : Tuning} {source : Source σ} {cancelAt : Option Binary64} {order : Order σ}
  {depth : Nat} {parent : String} {s : σ} {instant : Binary64}

namespace Level

variable {l m : Level σ}

/-- A level at which nothing is due, and the earliest timer is not before an instant. -/
def Outlasts (instant : Binary64) (l : Level σ) : Prop :=
  l.results? = none ∧ l.ready = [] ∧ ∃ till, earliest l.timers = some till ∧ till.lt instant = false

theorem pick_eq_none {order : Order σ} (h : l.ready = []) : l.pick order = none := by
  simp [pick, h]

theorem step_of_outlasts (h : l.Outlasts instant) :
    ∃ line, l.step t source (some instant) order = .error (.cancelled, line) := by
  obtain ⟨_, hready, till, htill, hlt⟩ := h
  exact ⟨_, by simp only [step, pick_eq_none hready, wait, htill, hlt]; rfl⟩

theorem Outlasts.run_eq (h : l.Outlasts instant) :
    ∃ line, l.run t source (some instant) order = (.error .cancelled, line) := by
  obtain ⟨line, hcancelled⟩ : ∃ line,
      l.step t source (some instant) order = .error (.cancelled, line) := step_of_outlasts h
  exact ⟨line, run_of_error h.1 hcancelled⟩

/-- An instant at which a pass is to be cancelled does not matter as long as it is not waited for. -/
theorem step_of_not_outlasts (hresults : l.results? = none) (h : ¬ l.Outlasts instant) :
    l.step t source (some instant) order = l.step t source none order := by
  unfold step
  split
  · rfl
  · rename_i hpick
    unfold wait
    split
    · rfl
    · rename_i till htill
      have hlt : till.lt instant = true := by
        by_contra hlt
        exact h ⟨hresults, ready_of_pick_none hpick, till, htill, by simpa using hlt⟩
      exact if_pos hlt

theorem run_of_not_outlasts (h : ∀ m, l.Reaches t source none order m → ¬ m.Outlasts instant) :
    l.run t source (some instant) order = l.run t source none order := by
  induction l using run.induct t source none order with
  | case1 l results hresults => rw [run_of_results hresults, run_of_results hresults]
  | case2 l hresults stop line hstep =>
    have hsame : l.step t source (some instant) order = l.step t source none order :=
      step_of_not_outlasts hresults (h l .start)
    rw [run_of_error hresults hstep, run_of_error hresults (hsame.trans hstep)]
  | case3 l hresults l' hstep ih =>
    have hsame : l.step t source (some instant) order = l.step t source none order :=
      step_of_not_outlasts hresults (h l .start)
    rw [run_of_ok hresults hstep, run_of_ok hresults (hsame.trans hstep)]
    exact ih fun m hm => h m (hm.head hresults hstep)

theorem Reaches.cases_head (h : l.Reaches t source cancelAt order m) :
    m = l ∨ ∃ l', l.results? = none ∧ l.step t source cancelAt order = .ok l' ∧
      l'.Reaches t source cancelAt order m := by
  induction h with
  | start => exact .inl rfl
  | step _ hresults hstep ih =>
    right
    rcases ih with rfl | ⟨l', hresults', hstep', hreaches⟩
    · exact ⟨_, hresults, hstep, .start⟩
    · exact ⟨l', hresults', hstep', hreaches.step hresults hstep⟩

theorem run_of_outlasts (hreaches : l.Reaches t source none order m) (h : m.Outlasts instant) :
    ∃ line, l.run t source (some instant) order = (.error .cancelled, line) := by
  induction l using run.induct t source none order with
  | case1 l results hresults =>
    rcases hreaches.cases_head with rfl | ⟨_, hnone, _⟩
    · rw [h.1] at hresults
      cases hresults
    · rw [hnone] at hresults
      cases hresults
  | case2 l hresults stop line hstep =>
    rcases hreaches.cases_head with rfl | ⟨_, _, hstep', _⟩
    · exact h.run_eq
    · rw [hstep] at hstep'
      cases hstep'
  | case3 l hresults l' hstep ih =>
    by_cases hl : l.Outlasts instant
    · exact hl.run_eq
    · rcases hreaches.cases_head with rfl | ⟨_, _, hstep', hrest⟩
      · exact absurd h hl
      · obtain rfl : l' = _ := Except.ok.inj (hstep.symm.trans hstep')
        rw [run_of_ok hresults ((step_of_not_outlasts hresults hl).trans hstep)]
        exact ih hrest

/-- A pass that is to be cancelled at an instant does not come to it. -/
theorem Reaches.early (h : l.Reaches t source (some instant) order m)
    (hl : l.line.now = .zero ∨ l.line.now.lt instant = true) :
    m.line.now = .zero ∨ m.line.now.lt instant = true := by
  refine h.keeps (P := fun m => m.line.now = .zero ∨ m.line.now.lt instant = true) hl ?_
  intro m m' hm hstep
  rcases step_ok hstep with ⟨e, held, hpick, hhappen⟩ | ⟨_, till, _, hearly, rfl⟩
  · rwa [now_happen hhappen, (pick_kept hpick).2]
  · exact .inr (hearly instant rfl)

end Level

/-- A pass that nothing cancels is still running at an instant: it waits for a timer that is not
before the instant. -/
def StillRunning (t : Tuning) (source : Source σ) (order : Order σ) (depth : Nat) (parent : String)
    (s : σ) (instant : Binary64) : Prop :=
  ∃ m, Moment t source none order depth parent s m ∧ m.Outlasts instant

theorem exists_cancelled (h : StillRunning t source order depth parent s instant) :
    ∃ r ∈ timedRounds t source (some instant) order depth parent s,
      r.outcome = .error .cancelled := by
  have hlinked := linked_timedRounds t source (some instant) order depth parent s
  obtain ⟨m, ⟨r, hr, hreaches⟩, hm⟩ := h
  rcases forest_diverge (onSchedule t source none order) (onSchedule t source (some instant) order)
    depth parent (Timeline.start s) with ⟨hrounds, _⟩ | ⟨r₁, hr₁, r₂, hr₂, hcodes, hbefore, hne⟩
  · replace hr : r ∈ timedRounds t source (some instant) order depth parent s := by
      rw [timedRounds, hrounds]
      exact hr
    obtain ⟨line, hrun⟩ := Level.run_of_outlasts hreaches hm
    have hgather := (hlinked.gathered hr).2
    rw [onSchedule, hrun] at hgather
    exact ⟨r, hr, (Prod.mk.inj hgather).1.symm⟩
  · -- The round that differs waits for the instant, or else it would not differ.
    have houtlasts : ∃ m, (Level.ofCodes t r₁.codes r₁.before).Reaches t source none order m ∧
        m.Outlasts instant := by
      by_contra hnone
      exact hne (Level.run_of_not_outlasts fun m hm hout => hnone ⟨m, hm, hout⟩)
    obtain ⟨m, hreaches, hm⟩ := houtlasts
    obtain ⟨line, hrun⟩ := Level.run_of_outlasts hreaches hm
    have hgather := (hlinked.gathered hr₂).2
    rw [hcodes, hbefore, onSchedule, hrun] at hgather
    exact ⟨r₂, hr₂, (Prod.mk.inj hgather).1.symm⟩

theorem early_before : ∀ r ∈ timedRounds t source (some instant) order depth parent s,
    r.before.now = .zero ∨ r.before.now.lt instant = true := by
  let Early (line : Timeline σ) : Prop :=
    line.Rested ∧ (line.now = .zero ∨ line.now.lt instant = true)
  have hkept : ∀ codes before settled after, codes.Nodup → Early before →
      onSchedule t source (some instant) order codes before = (.ok settled, after) →
      Early after := by
    intro codes before settled after hnodup hbefore hgather
    obtain ⟨m, made, hreaches, hlast, _, _⟩ := onSchedule_last _ hnodup hbefore.1.number hgather
    cases hlast
    exact ⟨hbefore.1.round hnodup hgather, hreaches.early hbefore.2⟩
  exact fun r hr => ((linked_timedRounds t source (some instant) order depth parent s).before (P := Early)
    ⟨rested_start s, .inl rfl⟩ hkept r hr).2

/-- A pass that is cancelled while it is still running is over at once. -/
theorem timedPass_cancelled (h : StillRunning t source order depth parent s instant) :
    (timedPass t source (some instant) order depth parent s).1 = .error (.stopped .cancelled) ∧
      OverAt t source (some instant) order depth parent s (Binary64.zero.latest instant) := by
  have hlinked := linked_timedRounds t source (some instant) order depth parent s
  obtain ⟨r, hr, hstop⟩ := exists_cancelled h
  refine ⟨forest_of_stopped hstop hr, ?_⟩
  obtain ⟨hnodup, hgather⟩ := hlinked.gathered hr
  obtain ⟨m, made, hreaches, hlast, _, hclocked⟩ :=
    onSchedule_last _ hnodup (rested_before r hr).number hgather
  have hzero : Binary64.zero ≤ m.line.now :=
    Binary64.le_trans (hlinked.le_before (rested_start s) r hr) hclocked.since
  have hlatest : m.line.now.latest instant = Binary64.zero.latest instant := by
    rcases hreaches.early (early_before r hr) with hnow | hlt
    · rw [hnow]
    · rw [Binary64.latest, Binary64.latest, if_pos hlt, if_pos (Binary64.lt_of_le_of_lt hzero hlt)]
  rw [hstop] at hlast
  generalize hend : r.after = after at hlast
  cases hlast with
  | cancelled _ _ hcancel =>
    cases hcancel
    rw [← hlatest]
    exact overAt_of_stopped hr hreaches hclocked hstop hend
      (Binary64.le_latest_left hclocked.number instant)

/-- A pass that is not running any more at an instant cannot be cancelled then. -/
theorem timedPass_of_not_running (h : ¬ StillRunning t source order depth parent s instant) :
    timedPass t source (some instant) order depth parent s =
      timedPass t source none order depth parent s := by
  rcases forest_diverge (onSchedule t source none order) (onSchedule t source (some instant) order)
    depth parent (Timeline.start s) with ⟨_, hforest⟩ | ⟨r, hr, _, _, _, _, hne⟩
  · exact hforest
  · exact absurd (Level.run_of_not_outlasts fun m hm hout => h ⟨m, ⟨r, hr, hm⟩, hout⟩) hne

/-- Abort and cancellation stop a pass at once. When a call raises a fault that concerns more than
its query, the pass is over at that instant and ends with a fault raised then: that of the task that
fails first, if events happen in the order they came. When the pass is cancelled while it is running
it is over then; later it cannot be cancelled. -/
theorem timedPass_stops (t : Tuning) (source : Source σ) (cancelAt : Option Binary64)
    (order : Order σ) (depth : Nat) (parent : String) (s : σ) :
    (∀ c ∈ (timedPass t source cancelAt order depth parent s).2.calls, ∀ fault instant how,
      c.outcome = .error fault → (∀ e, fault ≠ .fetch e) → c.finish = some (instant, how) →
      how ≠ .cancelled →
      (∃ first, FailsFirst t source cancelAt order depth parent s first) ∧
      (∃ fault', (timedPass t source cancelAt order depth parent s).1 =
          .error (.stopped (.fault fault')) ∧
        Raised t (timedPass t source cancelAt order depth parent s).2.calls instant fault') ∧
      OverAt t source cancelAt order depth parent s instant) ∧
    (∀ first, FailsFirst t source cancelAt firstCome depth parent s first →
      (timedPass t source cancelAt firstCome depth parent s).1 =
        .error (.stopped (.fault first))) ∧
    (∀ instant, StillRunning t source order depth parent s instant →
      (timedPass t source (some instant) order depth parent s).1 = .error (.stopped .cancelled) ∧
      OverAt t source (some instant) order depth parent s (Binary64.zero.latest instant)) ∧
    (∀ instant, ¬ StillRunning t source order depth parent s instant →
      timedPass t source (some instant) order depth parent s =
        timedPass t source none order depth parent s) := by
  refine ⟨fun c hc fault instant how houtcome hfault hfinish hhow => ⟨?_, ?_⟩,
    fun _ h => timedPass_first h, fun _ h => timedPass_cancelled h,
    fun _ h => timedPass_of_not_running h⟩
  · obtain ⟨r, hr, m, _, i, hreaches, _, _, _, hfailed, _⟩ :=
      failed_of_raised hc houtcome hfault hfinish hhow
    exact exists_failsFirst ⟨r, hr, hreaches⟩ hfailed
  · exact timedPass_aborted hc houtcome hfault hfinish hhow

/-- A query is refused after some seconds. -/
def refused (seconds : Nat) (message : String) : Reaction :=
  ⟨.whole seconds, .error (.unauthenticated (some message) none)⟩

def refusalOf : Fault → Option Refusal
  | .unauthenticated refusal _ => some refusal
  | _ => none

/-- A call has ended at an instant with a refusal. -/
def refusedAt (instant : Binary64) (message : String) (c : Call) : Bool :=
  c.finish = some (instant, .raised) &&
    match c.outcome with
    | .error fault => decide (refusalOf fault = some (.reported message))
    | .ok _ => false

theorem fault_of_refusedAt {instant : Binary64} {message : String} {calls : List Call}
    (h : calls.any (refusedAt instant message) = true) :
    ∃ c ∈ calls, ∃ fault, c.outcome = .error fault ∧ (∀ e, fault ≠ .fetch e) ∧
      c.finish = some (instant, .raised) ∧ refusalOf fault = some (.reported message) := by
  obtain ⟨c, hc, hrefused⟩ := List.any_eq_true.mp h
  rw [refusedAt, Bool.and_eq_true, decide_eq_true_eq] at hrefused
  obtain ⟨hfinish, hmessage⟩ := hrefused
  split at hmessage
  · rename_i fault houtcome
    rw [decide_eq_true_eq] at hmessage
    refine ⟨c, hc, fault, houtcome, ?_, hfinish, hmessage⟩
    rintro e rfl
    cases hmessage
  · cases hmessage

/-- A query that takes three seconds, and one that is refused after a second. -/
def spoiled : Script :=
  [("0", [brings ["A", "B"]]), ("A", [lasting 3 (brings [])]), ("B", [refused 1 "late"])]

/-- One pass is refused after a second, another one is cancelled after two. -/
theorem timedPass_stops_spoiled :
    (∃ fault, (timedPass twice Script.source none firstCome 2 "0" spoiled).1 =
        .error (.stopped (.fault fault))) ∧
      OverAt twice Script.source none firstCome 2 "0" spoiled (.ofDecimal false 1 0) ∧
      (timedPass single Script.source (some (.ofDecimal false 2 0)) firstCome 2 "0" crowded).1 =
        .error (.stopped .cancelled) ∧
      OverAt single Script.source (some (.ofDecimal false 2 0)) firstCome 2 "0" crowded
        (.ofDecimal false 2 0) := by
  have hrefused : (timedPass twice Script.source none firstCome 2 "0" spoiled).2.calls.any
      (refusedAt (.ofDecimal false 1 0) "late") = true := by
    decide +kernel
  obtain ⟨c, hc, fault, houtcome, hfault, hfinish, _⟩ := fault_of_refusedAt hrefused
  obtain ⟨_, ⟨fault', hresult, _⟩, hover⟩ :=
    (timedPass_stops twice Script.source none firstCome 2 "0" spoiled).1 c hc _ _ _ houtcome
      hfault hfinish (by simp)
  have hrunning : StillRunning single Script.source firstCome 2 "0" crowded
      (.ofDecimal false 2 0) := by
    obtain ⟨m, hmoment, hresults, hready, _, htimers⟩ := crowded_waits
    exact ⟨m, hmoment, hresults, hready, _, by rw [htimers]; rfl, by decide +kernel⟩
  have hcancelled := (timedPass_stops single Script.source none firstCome 2 "0" crowded).2.2.1 _
    hrunning
  have hlatest : Binary64.zero.latest (.ofDecimal false 2 0) = .ofDecimal false 2 0 := by
    decide +kernel
  rw [hlatest] at hcancelled
  exact ⟨⟨fault', hresult⟩, hover, hcancelled⟩

/-- Two queries of a level that are refused at the same instant. -/
def clashing : Script :=
  [("0", [brings ["P", "Q"]]), ("P", [lasting 1 (brings ["A"])]), ("Q", [lasting 2 (brings ["B"])]),
    ("A", [refused 0 "first"]), ("B", [refused 0 "second"])]

/-- A pass has ended with a refusal. -/
def stoppedBy (message : String) : Except Halt (List Node) → Bool
  | .error (.stopped (.fault fault)) => decide (refusalOf fault = some (.reported message))
  | _ => false

/-- A pass does not end with a fault that is raised when another one was raised before, though at
the same instant. -/
theorem timedPass_stops_with_first :
    ∃ c ∈ (timedPass twice Script.source none firstCome 3 "0" clashing).2.calls, ∃ fault,
      c.outcome = .error fault ∧ (∀ e, fault ≠ .fetch e) ∧
      c.finish = some (.ofDecimal false 2 0, .raised) ∧
      (timedPass twice Script.source none firstCome 3 "0" clashing).1 ≠
        .error (.stopped (.fault fault)) := by
  have hsecond : (timedPass twice Script.source none firstCome 3 "0" clashing).2.calls.any
      (refusedAt (.ofDecimal false 2 0) "second") = true := by
    decide +kernel
  have hends : stoppedBy "second"
      (timedPass twice Script.source none firstCome 3 "0" clashing).1 = false := by
    decide +kernel
  obtain ⟨c, hc, fault, houtcome, hfault, hfinish, hmessage⟩ := fault_of_refusedAt hsecond
  refine ⟨c, hc, fault, houtcome, hfault, hfinish, fun hresult => ?_⟩
  rw [hresult] at hends
  simp [stoppedBy, hmessage] at hends

end AdminConsole.Resolve
