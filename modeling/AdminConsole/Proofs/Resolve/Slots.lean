import AdminConsole.Proofs.Resolve.Courses
import AdminConsole.Proofs.Resolve.LevelByLevel

/-!
Slots. A call is open as long as its answer is ahead, and its task has a slot all that time. So
there are never more open calls than slots; and once nothing is due any more every slot that is
taken has an open call, so nobody waits for a slot while there are fewer open calls than slots.
-/

namespace AdminConsole.Resolve

variable {σ : Type} {t : Tuning} {source : Source σ}

def Event.isAnswer : Event → Bool
  | .answer _ => true
  | _ => false

namespace Level

/-- A level from which some events were taken in hand has one open call for each answer ahead. -/
def Served (hand : List Event) (l : Level σ) : Prop :=
  l.line.openCalls = (hand ++ l.scheduled).countP Event.isAnswer

theorem open_close {line : Timeline σ} {k : Nat} {c : Call} (hk : line.calls[k]? = some c)
    (hopen : c.finish = none) (how : CallEnd) :
    (line.close k how).openCalls + 1 = line.openCalls := by
  obtain ⟨hlt, rfl⟩ := List.getElem?_eq_some_iff.mp hk
  have hsplit : line.calls = line.calls.take k ++ line.calls[k] :: line.calls.drop (k + 1) := by simp
  simp only [Timeline.openCalls, Timeline.close, List.modify_eq_take_cons_drop hlt]
  conv_rhs => rw [hsplit]
  simp only [List.countP_append, List.countP_cons, hopen, Option.isNone_some, Option.isNone_none]
  simp only [Bool.false_eq_true, if_false, if_true, Nat.add_zero]
  omega

theorem openCalls_cancelOpen (line : Timeline σ) : line.cancelOpen.openCalls = 0 := by
  simp only [Timeline.openCalls, Timeline.cancelOpen, List.countP_eq_zero, List.mem_map]
  rintro _ ⟨c, _, rfl⟩
  split <;> simp_all

namespace Served

variable {hand : List Event} {l : Level σ} {e : Event} {i : Nat} {task : Task}

theorem of_perm {l' : Level σ} {hand' : List Event} (h : Served hand l)
    (hcalls : l'.line.calls = l.line.calls)
    (hscheduled : (hand' ++ l'.scheduled).countP Event.isAnswer =
      (hand ++ l.scheduled).countP Event.isAnswer) : Served hand' l' := by
  unfold Served Timeline.openCalls at h ⊢
  rw [hcalls, h, hscheduled]

theorem next (h : Served hand l) (hcount : hand.countP Event.isAnswer = [e].countP Event.isAnswer) :
    Served [] (l.next e) := by
  refine h.of_perm rfl ?_
  simp only [List.countP_append, hcount, scheduled, Level.next, List.countP_cons, List.countP_nil]
  omega

theorem last (h : Served hand l) (hcount : hand.countP Event.isAnswer = [e].countP Event.isAnswer) :
    Served [] (l.last e) := by
  refine h.of_perm rfl ?_
  simp only [List.countP_append, hcount, scheduled, Level.last, List.countP_cons, List.countP_nil]
  omega

theorem later (h : Served hand l) (seconds : Number)
    (hcount : hand.countP Event.isAnswer = [e].countP Event.isAnswer) :
    Served [] (l.later seconds e) := by
  refine h.of_perm rfl ?_
  simp only [List.countP_append, hcount, scheduled, Level.later, List.map_append, List.map_cons,
    List.map_nil, List.countP_cons, List.countP_nil]
  omega

theorem setTask (h : Served hand l) (task' : Task) : Served hand (l.setTask i task') := h

theorem pick {order : Order σ} {held : Level σ} (h : Served [] l)
    (hpick : l.pick order = some (e, held)) : Served [e] held := by
  simp only [Level.pick, Option.map_eq_some_iff, Prod.mk.injEq] at hpick
  obtain ⟨_, hevent, rfl, rfl⟩ := hpick
  obtain ⟨hplace, hget⟩ := List.getElem?_eq_some_iff.mp hevent
  have hready := List.getElem_cons_eraseIdx_perm hplace
  rw [hget] at hready
  refine h.of_perm rfl (List.Perm.countP_eq _ ?_)
  simpa [scheduled] using hready.append_right (l.timers.map Prod.snd)

theorem release (h : Served hand l) : Served hand l.release := by
  unfold Level.release
  split
  · exact h
  · refine h.of_perm rfl ?_
    simp [scheduled, Level.last, Event.isAnswer]

theorem fail {fault : Fault} (h : Served hand l) (hcount : hand.countP Event.isAnswer = 0) :
    Served [] (l.fail i task fault) :=
  (h.setTask _).last (by simpa [Event.isAnswer] using hcount)

theorem paused {pause : Except NumberError (Option Number)} (h : Served hand l)
    (hcount : hand.countP Event.isAnswer = 0) : Served [] (l.paused pause i task) := by
  unfold Level.paused
  split
  · exact h.fail hcount
  · exact (h.setTask _).next (by simpa [Event.isAnswer] using hcount)
  · rename_i seconds
    have hline : Served hand { l with line.pauses := l.line.pauses ++ [seconds] } := h
    exact (hline.setTask _).later _ (by simpa [Event.isAnswer] using hcount)

theorem ask (h : Served [.ask i] l) : Served [] (l.ask i) := by
  unfold Level.ask
  split
  · have hserved : Served [.ask i] { l with free := l.free - 1 } := h
    exact hserved.next (by simp [Event.isAnswer])
  · exact h.of_perm rfl (by simp [scheduled, Event.isAnswer])

theorem enter (h : Served [.enter i] l) : Served [] (l.enter source i task) := by
  obtain ⟨line, hcalls, _, _, henter⟩ := enter_eq source l i task
  have hserved : Served [.answer i] { l with line } := by
    simp only [Served, Timeline.openCalls, hcalls, List.countP_append, List.countP_cons,
      List.countP_nil, Event.isAnswer] at h ⊢
    simp only [scheduled] at h ⊢
    simp_all
    omega
  rcases henter with henter | ⟨delay, henter⟩ <;> rw [henter]
  · exact (hserved.setTask _).next rfl
  · exact (hserved.setTask _).later delay rfl

theorem hangUp {call : Nat} {reply : Reply} {c : Call} (h : Served [.answer i] l)
    (hcall : l.line.calls[call]? = some c) (hopen : c.finish = none) :
    Served [] (l.hangUp call reply) := by
  apply release
  have hclose := open_close hcall hopen (if reply.returned then .returned else .raised)
  simp only [Served, List.cons_append, List.nil_append, List.countP_cons, Event.isAnswer] at h ⊢
  simp only [if_true] at h
  simp only [scheduled] at h ⊢
  omega

theorem proceed (h : Served [] l) (verdict : Verdict) : Served [] (l.proceed t i task verdict) := by
  unfold Level.proceed
  split
  · exact h
  · have hretried : Served [] { l with line.report := l.line.report.retry } := h
    exact hretried.paused rfl
  · exact h.fail rfl

theorem happen {slots : Nat} {codes : List String} {before : Timeline σ} {made : List Call}
    {l' : Level σ} (h : Served [e] l) (horderly : l.Orderly slots [e])
    (hclocked : l.Clocked t codes before made none)
    (hhappen : Level.happen t source l e = .ok l') : Served [] l' := by
  cases e with
  | begin i =>
    simp only [Level.happen] at hhappen
    split at hhappen <;> cases hhappen
    · exact h.paused rfl
    · exact h.of_perm rfl (by simp [Event.isAnswer])
  | ask i =>
    cases hhappen
    exact h.ask
  | enter i =>
    simp only [Level.happen] at hhappen
    split at hhappen <;> cases hhappen
    · exact h.enter
    · exact h.of_perm rfl (by simp [Event.isAnswer])
  | answer i =>
    have hturn := horderly.turn rfl
    simp only [Level.happen] at hhappen
    split at hhappen
    · rename_i task htask
      rw [phase?, htask, Option.map_some] at hturn
      split at hhappen
      · rename_i call reply hphase
        cases hhappen
        obtain ⟨k, c, rfl, hk, _, hopen⟩ :=
          hclocked.links i task call reply (Option.some_ne_none i).symm htask hphase
        have hcall : l.line.calls[before.calls.length + k]? = some c := by
          rw [hclocked.calls, List.getElem?_append_right (by omega), Nat.add_sub_cancel_left, hk]
        exact (h.hangUp hcall hopen).proceed _
      · rename_i hphase
        generalize task.phase = phase at hturn hphase
        cases hturn
        exact absurd rfl (hphase _ _)
    · rename_i hnone
      rw [phase?, hnone] at hturn
      cases hturn
  | report fault =>
    cases hhappen
    exact h.last rfl
  | abort fault => cases hhappen

end Served

section Peak

variable {l l' : Level σ} {i : Nat} {task : Task}

@[simp] theorem peak_paused (pause : Except NumberError (Option Number)) :
    (l.paused pause i task).line.peak = l.line.peak := by
  unfold paused
  split <;> rfl

@[simp] theorem peak_ask : (l.ask i).line.peak = l.line.peak := by
  unfold ask
  split <;> rfl

@[simp] theorem peak_hangUp (call : Nat) (reply : Reply) :
    (l.hangUp call reply).line.peak = l.line.peak := by
  unfold hangUp release
  split <;> rfl

@[simp] theorem peak_proceed (verdict : Verdict) :
    (l.proceed t i task verdict).line.peak = l.line.peak := by
  unfold proceed
  split
  · rfl
  · rw [peak_paused]
  · rfl

/-- The peak only rises to the calls that are open. -/
theorem peak_step {cancelAt : Option Binary64} {order : Order σ}
    (h : l.step t source cancelAt order = .ok l') :
    l'.line.peak = l.line.peak ∨ l'.line.peak = max l.line.peak l'.line.openCalls := by
  rcases step_ok h with ⟨e, held, hpick, hhappen⟩ | ⟨_, till, _, _, rfl⟩
  · rw [← (pick_kept hpick).2]
    cases e with
    | enter i =>
      simp only [happen] at hhappen
      split at hhappen <;> cases hhappen
      · rename_i task _
        obtain ⟨line, _, _, hpeak, henter⟩ := enter_eq source held i task
        rcases henter with henter | ⟨delay, henter⟩ <;> rw [henter] <;> exact .inr hpeak
      · exact .inl rfl
    | ask i =>
      cases hhappen
      exact .inl peak_ask
    | begin i => simp only [happen] at hhappen; split at hhappen <;> cases hhappen <;> simp
    | answer i =>
      simp only [happen] at hhappen
      split at hhappen
      · split at hhappen <;> cases hhappen <;> simp
      · cases hhappen
        exact .inl rfl
    | report fault =>
      cases hhappen
      exact .inl rfl
    | abort fault => cases hhappen
  · exact .inl rfl

end Peak

section Free

variable {slots : Nat} {l : Level σ} (horderly : l.Orderly slots []) (hserved : Served [] l)
include horderly hserved

/-- Every open call has a slot. -/
theorem open_add_free_le : l.line.openCalls + l.free ≤ slots := by
  have hslots := horderly.slots
  have hmono : l.scheduled.countP Event.isAnswer ≤ l.taken :=
    List.countP_mono_left fun e _ he => by cases e <;> first | rfl | cases he
  simp only [Served, List.nil_append, List.countP_nil] at hserved hslots
  omega

/-- Once nothing is due, every slot that is taken has an open call. -/
theorem open_add_free_eq {codes : List String} {before : Timeline σ} {made : List Call}
    (hclocked : l.Clocked t codes before made none) (hready : l.ready = []) :
    l.line.openCalls + l.free = slots := by
  have hslots := horderly.slots
  have hcongr : l.scheduled.countP Event.isAnswer = l.taken := by
    apply List.countP_congr
    intro e he
    simp only [scheduled, hready, List.nil_append, List.mem_map] at he
    obtain ⟨timer, htimer, rfl⟩ := he
    obtain ⟨i, hask | hanswer⟩ := hclocked.timers timer htimer
    · simp [hask, Event.isAnswer, Event.holdsSlot]
    · simp [hanswer, Event.isAnswer, Event.holdsSlot]
  simp only [Served, List.nil_append, List.countP_nil] at hserved hslots
  omega

end Free

/-- Nothing is ahead of tasks that are all settled. -/
theorem Orderly.events_of_results {slots : Nat} {l : Level σ} {settled : List Settled}
    (h : l.Orderly slots []) (hresults : l.results? = some settled) : l.events = [] := by
  have hphase : ∀ i, l.phase? i = none ∨ ∃ s, l.phase? i = some (.settled s) := by
    intro i
    have hphases := congrArg (fun phases => phases[i]?) (results?_eq_some_iff.mp hresults)
    simp only [List.getElem?_map] at hphases
    rw [phase?, hphases]
    cases settled[i]? with
    | none => exact .inl rfl
    | some s => exact .inr ⟨s, rfl⟩
  have hnone : ∀ i, about i l.events = [] := by
    intro i
    have hturn := h.turns i
    rw [List.nil_append] at hturn
    generalize about i l.events = events at hturn
    rcases hphase i with hi | ⟨s, hi⟩ <;> rw [hi] at hturn <;> cases hturn <;> rfl
  have htask : ∀ e ∈ l.events, ∀ i, e.task? ≠ some i := by
    intro e he i hi
    have habout : e ∈ about i l.events := by simp [about, he, hi]
    rw [hnone i] at habout
    cases habout
  have hfault : ∀ e ∈ l.events, e.fault? = none := by
    intro e he
    by_contra hsome
    obtain ⟨fault, hfault⟩ := Option.ne_none_iff_exists'.mp hsome
    obtain ⟨i, hfailed⟩ := h.faults e he fault hfault
    rcases hphase i with hi | ⟨s, hi⟩ <;> rw [hi] at hfailed <;> cases hfailed
  apply List.eq_nil_iff_forall_not_mem.mpr
  intro e he
  cases e with
  | begin i | ask i | enter i | answer i => exact htask _ he i rfl
  | report fault | abort fault => cases hfault _ he

theorem Reaches.served {codes : List String} {before : Timeline σ} {cancelAt : Option Binary64}
    {order : Order σ} {m : Level σ}
    (h : (Level.ofCodes t codes before).Reaches t source cancelAt order m) (hnodup : codes.Nodup)
    (hbefore : before.Rested) (hpeak : before.peak ≤ t.maxConcurrency) :
    Served [] m ∧ m.line.peak ≤ t.maxConcurrency := by
  induction h with
  | start =>
    refine ⟨?_, hpeak⟩
    have hnone : ((List.range codes.length).map Event.begin).countP Event.isAnswer = 0 := by
      simp [List.countP_eq_zero, Event.isAnswer]
    have hclosed : before.openCalls = 0 := by
      simp only [Timeline.openCalls, List.countP_eq_zero]
      intro c hc
      obtain ⟨_, _, hfinish, _⟩ := hbefore.ended c hc
      simp [hfinish]
    simp [Served, scheduled, Level.ofCodes, hnone, hclosed]
  | @step l l' hreaches _ hstep ih =>
    obtain ⟨horderly, made, hclocked⟩ := hreaches.clocked hnodup hbefore.number
    have hserved : Served [] l' := by
      rcases step_ok hstep with ⟨e, held, hpick, hhappen⟩ | ⟨_, till, _, _, rfl⟩
      · exact (ih.1.pick hpick).happen (horderly.pick hpick) (hclocked.pick hpick).1 hhappen
      · exact ih.1.of_perm rfl ((l.scheduled_moved till).symm.countP_eq _)
    have hopen := open_add_free_le (horderly.step hstep) hserved
    refine ⟨hserved, ?_⟩
    rcases peak_step hstep with h | h <;> omega

end Level

variable {cancelAt : Option Binary64} {order : Order σ} {codes : List String}
  {before after : Timeline σ} {outcome : Except Stop (List Settled)}

/-- However a round ends, no call is left open, and there were never more than slots. -/
theorem onSchedule_open (hnodup : codes.Nodup) (hbefore : before.Rested)
    (hpeak : before.peak ≤ t.maxConcurrency)
    (h : onSchedule t source cancelAt order codes before = (outcome, after)) :
    after.openCalls = 0 ∧ after.peak ≤ t.maxConcurrency := by
  obtain ⟨m, made, hreaches, hlast, horderly, hclocked⟩ := onSchedule_last _ hnodup hbefore.number h
  obtain ⟨hserved, hpeak⟩ := hreaches.served hnodup hbefore hpeak
  cases hlast with
  | settled hresults =>
    refine ⟨?_, hpeak⟩
    have hevents := horderly.events_of_results hresults
    have hscheduled : m.scheduled = [] := (List.append_eq_nil_iff.mp hevents).1
    simpa [Level.Served, hscheduled] using hserved
  | aborted => exact ⟨Level.openCalls_cancelOpen m.line, hpeak⟩
  | cancelled => exact ⟨Level.openCalls_cancelOpen _, hpeak⟩

/-- At every moment of a pass there are at most as many open calls as slots. While nothing is due
and some task waits for a slot there are just as many, and every level gives all slots back. -/
theorem timedPass_slots (t : Tuning) (source : Source σ) (cancelAt : Option Binary64)
    (order : Order σ) (depth : Nat) (parent : String) (s : σ) :
    (∀ m, Moment t source cancelAt order depth parent s m →
      m.line.openCalls ≤ t.maxConcurrency ∧
      (m.ready = [] → m.queue ≠ [] → m.line.openCalls = t.maxConcurrency) ∧
      (∀ settled, m.results? = some settled →
        m.line.openCalls = 0 ∧ m.free = t.maxConcurrency ∧ m.queue = [])) ∧
    (timedPass t source cancelAt order depth parent s).2.openCalls = 0 ∧
    (timedPass t source cancelAt order depth parent s).2.peak ≤ t.maxConcurrency := by
  let Idle (line : Timeline σ) : Prop := line.Rested ∧ line.peak ≤ t.maxConcurrency
  have hlinked := linked_timedRounds t source cancelAt order depth parent s
  have hstart : Idle (Timeline.start s) := ⟨rested_start s, Nat.zero_le _⟩
  have hkept : ∀ codes before settled after, codes.Nodup → Idle before →
      onSchedule t source cancelAt order codes before = (.ok settled, after) → Idle after :=
    fun _ _ _ _ hnodup hbefore h =>
      ⟨hbefore.1.round hnodup h, (onSchedule_open hnodup hbefore.1 hbefore.2 h).2⟩
  constructor
  · rintro m ⟨r, hr, hreaches⟩
    obtain ⟨hrested, hpeak⟩ := hlinked.before hstart hkept r hr
    have hnodup := (hlinked.gathered hr).1
    obtain ⟨horderly, made, hclocked⟩ := hreaches.clocked hnodup hrested.number
    have hserved := (hreaches.served hnodup hrested hpeak).1
    refine ⟨?_, fun hready hqueue => ?_, fun settled hresults => ?_⟩
    · have := Level.open_add_free_le horderly hserved
      omega
    · have := Level.open_add_free_eq horderly hserved hclocked hready
      have := horderly.queue hqueue
      omega
    · have hevents := horderly.events_of_results hresults
      simp only [Level.events, List.append_eq_nil_iff, List.map_eq_nil_iff] at hevents
      have hready := (List.append_eq_nil_iff.mp hevents.1).1
      have hopen : m.line.openCalls = 0 := by simpa [Level.Served, hevents.1] using hserved
      have := Level.open_add_free_eq horderly hserved hclocked hready
      exact ⟨hopen, by omega, hevents.2⟩
  · exact hlinked.after hstart hkept
      (fun _ _ _ _ hnodup hbefore h => onSchedule_open hnodup hbefore.1 hbefore.2 h)
      (rounds_ne_nil _ _ _ _)

/-- Two attempts for each query, one request at a time, no pauses. -/
def single : Tuning := ⟨2, .whole 0, .whole 0, 1, twice.attempts_pos, by decide⟩

def lasting (seconds : Nat) (r : Reaction) : Reaction := { r with delay := .whole seconds }

/-- Two queries that take three seconds each. -/
def crowded : Script :=
  [("0", [brings ["A", "B"]]), ("A", [lasting 3 (brings [])]), ("B", [lasting 3 (brings [])])]

def crowdedRoots : List Node := [coded "A" [], coded "B" []]

def crowdedStart : Timeline Script :=
  ⟨.zero, crowded, [⟨"0", .ok crowdedRoots, .zero, some (.zero, .returned)⟩], [], 1, ⟨1, 0, []⟩⟩

theorem onSchedule_crowded : onSchedule single Script.source none firstCome ["0"]
    (Timeline.start crowded) = (.ok [.ok crowdedRoots], crowdedStart) := by
  cbv

/-- The first query has made its call and the second one waits for the slot. -/
theorem crowded_waits : ∃ m, Moment single Script.source none firstCome 2 "0" crowded m ∧
    m.results? = none ∧ m.ready = [] ∧ m.queue = [1] ∧
    m.timers = [(instantAfter .zero (.whole 3), .answer 0)] := by
  have hwaits : ∃ m, (Level.ofCodes single ["A", "B"] crowdedStart).Reaches single Script.source
      none firstCome m ∧ m.results? = none ∧ m.ready = [] ∧ m.queue = [1] ∧
      m.timers = [(instantAfter .zero (.whole 3), .answer 0)] := by
    -- Begin, ask and enter for the first task, begin and ask for the second.
    exact ⟨_, .step (.step (.step (.step (.step .start rfl rfl) rfl rfl) rfl rfl) rfl rfl) rfl rfl,
      rfl, rfl, rfl, rfl⟩
  obtain ⟨m, hreaches, hm⟩ := hwaits
  exact ⟨m, moment_below onSchedule_crowded (by cbv) hreaches, hm⟩

theorem timedPass_slots_crowded : ∃ m, Moment single Script.source none firstCome 2 "0" crowded m ∧
    m.ready = [] ∧ m.queue = [1] ∧ m.line.openCalls = 1 := by
  obtain ⟨m, hmoment, _, hready, hqueue, _⟩ := crowded_waits
  have hslots := (timedPass_slots single Script.source none firstCome 2 "0" crowded).1 m hmoment
  exact ⟨m, hmoment, hready, hqueue, hslots.2.1 hready (by simp [hqueue])⟩

end AdminConsole.Resolve
