import Mathlib
import AdminConsole.Resolve.Progress

/-!
Turns. Every task of a level has at most one event ahead, and its phase tells which. Slots are
neither lost nor made, and nobody waits for a slot while one is free. So a level does not come to
a stop before all its tasks are settled, unless a fault is on its way.
-/

namespace AdminConsole.Resolve

def Event.task? : Event → Option Nat
  | .begin i | .ask i | .enter i | .answer i => some i
  | .report _ | .abort _ => none

/-- Whether the task of an event has a slot until the event happens. -/
def Event.holdsSlot : Event → Bool
  | .enter _ | .answer _ => true
  | _ => false

def Event.fault? : Event → Option Fault
  | .report fault | .abort fault => some fault
  | _ => none

def about (i : Nat) (events : List Event) : List Event := events.filter fun e => e.task? = some i

/-- The events that a task in a phase has ahead. -/
inductive Turn (i : Nat) : Option Phase → List Event → Prop where
  | absent : Turn i none []
  | idle : Turn i (some .idle) [.begin i]
  | asking : Turn i (some .waiting) [.ask i]
  | queued : Turn i (some .waiting) [.enter i]
  | requesting {call reply} : Turn i (some (.requesting call reply)) [.answer i]
  | settled {s} : Turn i (some (.settled s)) []
  | failed {fault} : Turn i (some (.failed fault)) []

theorem about_append (i : Nat) (a b : List Event) : about i (a ++ b) = about i a ++ about i b := by
  simp [about]

theorem about_cons_self {i : Nat} {e : Event} (h : e.task? = some i) (events : List Event) :
    about i (e :: events) = e :: about i events := by
  simp [about, h]

theorem about_cons_of_ne {i : Nat} {e : Event} (h : e.task? ≠ some i) (events : List Event) :
    about i (e :: events) = about i events := by
  simp [about, h]

theorem about_perm (i : Nat) {a b : List Event} (h : a.Perm b) : (about i a).Perm (about i b) :=
  h.filter _

theorem about_begin (i n : Nat) :
    about i ((List.range n).map .begin) = if i < n then [.begin i] else [] := by
  induction n with
  | zero => rfl
  | succ n ih =>
    rw [List.range_succ, List.map_append, about_append, ih]
    by_cases hin : i = n
    · subst hin
      simp [about, Event.task?]
    · have hne : n ≠ i := fun h => hin h.symm
      have hlt : i < n + 1 ↔ i < n := by omega
      simp [about, Event.task?, hne, hlt]

/-- A task has no more than one event ahead, so the order of events does not matter to it. -/
theorem Turn.perm {i : Nat} {phase : Option Phase} {a b : List Event} (h : Turn i phase a)
    (hperm : a.Perm b) : Turn i phase b := by
  have heq : a = b := by
    cases h with
    | absent | settled | failed => exact (List.nil_perm.mp hperm).symm
    | idle | asking | queued | requesting => exact List.singleton_perm.mp hperm
  exact heq ▸ h

theorem Turn.length_le {i : Nat} {phase : Option Phase} {events : List Event}
    (h : Turn i phase events) : events.length ≤ 1 := by
  cases h <;> simp

namespace Level

variable {σ : Type}

def phase? (l : Level σ) (i : Nat) : Option Phase := l.tasks[i]?.map Task.phase

/-- The events that are due now or later. -/
def scheduled (l : Level σ) : List Event := l.ready ++ l.timers.map Prod.snd

/-- The scheduled events, and the ones that wait for a slot. -/
def events (l : Level σ) : List Event := l.scheduled ++ l.queue.map .enter

def taken (l : Level σ) : Nat := l.scheduled.countP Event.holdsSlot

theorem setTask_self {l : Level σ} {i : Nat} {task : Task} (h : l.tasks[i]? = some task) :
    l.setTask i task = l := by
  obtain ⟨hi, rfl⟩ := List.getElem?_eq_some_iff.mp h
  simp [setTask]

/-- The clock makes no events and takes none away. -/
theorem scheduled_moved (l : Level σ) (instant : Binary64) :
    l.scheduled.Perm (l.moved instant).scheduled := by
  have htimers : ((l.timers.filter fun timer => !instant.lt timer.1) ++
      l.timers.filter fun timer => instant.lt timer.1).Perm l.timers := by
    simpa using List.filter_append_perm (fun timer : Binary64 × Event => !instant.lt timer.1) l.timers
  simp only [scheduled, moved, List.append_assoc, ← List.map_append]
  exact ((htimers.map Prod.snd).append_left _).symm

theorem ready_of_pick_none {order : Order σ} {l : Level σ} (h : l.pick order = none) : l.ready = [] := by
  simp only [pick, Option.map_eq_none_iff, List.getElem?_eq_none_iff] at h
  by_contra hne
  have := Nat.mod_lt (order l) (List.length_pos_iff.mpr hne)
  omega

/-- What a step does: an event that is due happens, or nothing is due and the clock moves to the
earliest timer, which comes before the pass is cancelled. -/
theorem step_ok {t : Tuning} {source : Source σ} {cancelAt : Option Binary64} {order : Order σ}
    {l m : Level σ} (h : l.step t source cancelAt order = .ok m) :
    (∃ event held, l.pick order = some (event, held) ∧ happen t source held event = .ok m) ∨
      l.ready = [] ∧ ∃ till, earliest l.timers = some till ∧
        (∀ instant, cancelAt = some instant → till.lt instant = true) ∧ m = l.moved till := by
  unfold step at h
  split at h
  · rename_i event held hpick
    split at h <;> cases h
    rename_i hhappen
    exact .inl ⟨event, held, hpick, hhappen⟩
  · rename_i hpick
    refine .inr ⟨ready_of_pick_none hpick, ?_⟩
    unfold wait at h
    split at h
    · cases h
    · rename_i till htill
      refine ⟨till, htill, ?_⟩
      split at h
      · cases h
        exact ⟨nofun, rfl⟩
      · rename_i instant
        split at h <;> cases h
        rename_i hlt
        refine ⟨?_, rfl⟩
        rintro _ ⟨⟩
        exact hlt

/-- A level from which some events were taken in hand: every task has its turn, the slots are as
many as they should be, the queue is empty while there is a free one, a task that failed has given
the alarm, and no fault is passed on without a task that failed with it. -/
structure Orderly (slots : Nat) (hand : List Event) (l : Level σ) : Prop where
  turns : ∀ i, Turn i (l.phase? i) (about i (hand ++ l.events))
  slots : l.free + l.taken + hand.countP Event.holdsSlot = slots
  queue : l.queue ≠ [] → l.free = 0
  alarm : ∀ i fault, l.phase? i = some (.failed fault) → ∃ e ∈ hand ++ l.ready, e.fault?.isSome
  faults : ∀ e ∈ hand ++ l.events, ∀ fault, e.fault? = some fault →
    ∃ i, l.phase? i = some (.failed fault)

namespace Orderly

variable {slots n : Nat} {l : Level σ} {e : Event}

theorem of_perm {hand hand' : List Event} (l' : Level σ) (h : Orderly slots hand l)
    (hevents : (hand ++ l.events).Perm (hand' ++ l'.events)) (htasks : l'.tasks = l.tasks)
    (hslots : l'.free + l'.taken + hand'.countP Event.holdsSlot = n)
    (hqueue : l'.queue ≠ [] → l'.free = 0)
    (halarm : ∀ e ∈ hand ++ l.ready, e.fault?.isSome → e ∈ hand' ++ l'.ready) :
    Orderly n hand' l' where
  turns i := by
    rw [phase?, htasks]
    exact (h.turns i).perm (about_perm i hevents)
  slots := hslots
  queue := hqueue
  alarm i fault hphase := by
    rw [phase?, htasks] at hphase
    obtain ⟨e, he, hfault⟩ := h.alarm i fault hphase
    exact ⟨e, halarm e he hfault, hfault⟩
  faults e he fault hfault := by
    obtain ⟨i, hphase⟩ := h.faults e (hevents.mem_iff.mpr he) fault hfault
    exact ⟨i, by rwa [phase?, htasks]⟩

theorem pick {order : Order σ} {held : Level σ} (h : Orderly slots [] l)
    (hpick : l.pick order = some (e, held)) : Orderly slots [e] held := by
  simp only [Level.pick, Option.map_eq_some_iff, Prod.mk.injEq] at hpick
  obtain ⟨_, hevent, rfl, rfl⟩ := hpick
  obtain ⟨hplace, hget⟩ := List.getElem?_eq_some_iff.mp hevent
  have hready := List.getElem_cons_eraseIdx_perm hplace
  rw [hget] at hready
  refine h.of_perm _ ?_ rfl ?_ h.queue ?_
  · simp only [events, scheduled, List.append_assoc, List.nil_append, List.singleton_append]
    exact (hready.append_right _).symm
  · have hcount := hready.countP_eq Event.holdsSlot
    have hslots := h.slots
    simp only [taken, scheduled, List.countP_append, List.countP_cons, List.countP_nil]
      at hcount hslots ⊢
    omega
  · intro e he _
    exact hready.mem_iff.mpr he

theorem next (h : Orderly slots [e] l) : Orderly slots [] (l.next e) := by
  refine h.of_perm (l.next e) (.refl _) rfl ?_ h.queue fun e he _ => he
  have hslots := h.slots
  simp only [Level.next, taken, scheduled, List.cons_append, List.countP_cons, List.countP_nil]
    at hslots ⊢
  omega

theorem last (h : Orderly slots [e] l) : Orderly slots [] (l.last e) := by
  refine h.of_perm (l.last e) ?_ rfl ?_ h.queue ?_
  · simp only [Level.last, events, scheduled, List.append_assoc, List.cons_append, List.nil_append]
    exact List.perm_middle.symm
  · have hslots := h.slots
    simp only [Level.last, taken, scheduled, List.countP_append, List.countP_cons, List.countP_nil]
      at hslots ⊢
    omega
  · intro e' he _
    simp only [List.mem_append, List.mem_singleton, Level.last, List.nil_append] at he ⊢
    exact he.symm

theorem later {seconds : Number} (h : Orderly slots [e] l) (hfault : e.fault? = none) :
    Orderly slots [] (l.later seconds e) := by
  refine h.of_perm (l.later seconds e) ?_ rfl ?_ h.queue ?_
  · simp only [Level.later, events, scheduled, List.map_append, List.map_cons, List.map_nil,
      List.append_assoc, List.cons_append, List.nil_append]
    rw [← List.append_assoc, ← List.append_assoc]
    exact List.perm_middle.symm
  · have hslots := h.slots
    simp only [Level.later, taken, scheduled, List.map_append, List.map_cons, List.map_nil,
      List.countP_append, List.countP_cons, List.countP_nil] at hslots ⊢
    omega
  · intro e' he hfault'
    rcases List.mem_cons.mp he with rfl | he
    · rw [hfault] at hfault'
      cases hfault'
    · exact he

/-- A slot that is given back is free, or goes to the task that has waited longest. -/
theorem release {hand : List Event} (h : Orderly slots hand l) :
    Orderly (slots + 1) hand l.release := by
  have hslots := h.slots
  unfold Level.release
  split
  · rename_i hempty
    refine h.of_perm _ (.refl _) rfl ?_ (fun hne => absurd hempty hne) fun _ he _ => he
    simp only [taken, scheduled] at hslots ⊢
    omega
  · rename_i i queue hfull
    have hnone : l.free = 0 := h.queue (by simp [hfull])
    refine h.of_perm _ (.append_left hand ?_) rfl ?_ (fun _ => hnone) ?_
    · simp only [Level.last, events, scheduled, hfull, List.map_cons, List.append_assoc,
        List.cons_append, List.nil_append]
      exact List.perm_middle.append_left _
    · simp only [Level.last, taken, scheduled, List.countP_append, List.countP_cons, List.countP_nil,
        Event.holdsSlot, if_true] at hslots ⊢
      omega
    · intro e he _
      simp only [Level.last, ← List.append_assoc]
      exact List.mem_append_left _ he

theorem withLine {hand : List Event} (h : Orderly slots hand l) (line : Timeline σ) :
    Orderly slots hand { l with line } := ⟨h.turns, h.slots, h.queue, h.alarm, h.faults⟩

theorem hangUp {hand : List Event} (h : Orderly slots hand l) (call : Nat) (reply : Reply) :
    Orderly (slots + 1) hand (l.hangUp call reply) :=
  (h.withLine _).release

theorem alone {i : Nat} (h : Orderly slots [e] l) (habout : e.task? = some i) :
    about i l.events = [] := by
  have hlength := (h.turns i).length_le
  rw [List.singleton_append, about_cons_self habout] at hlength
  simpa using hlength

theorem turn {i : Nat} (h : Orderly slots [e] l) (habout : e.task? = some i) :
    Turn i (l.phase? i) [e] := by
  have hi := h.turns i
  rwa [List.singleton_append, about_cons_self habout, h.alone habout] at hi

theorem idle {i : Nat} {task : Task} (h : Orderly slots [.begin i] l)
    (htask : l.tasks[i]? = some task) : task.phase = .idle := by
  have hturn := h.turn rfl
  rw [phase?, htask, Option.map_some] at hturn
  generalize task.phase = phase at hturn
  cases hturn
  rfl

theorem waiting {i : Nat} {task : Task} (h : Orderly slots [.enter i] l)
    (htask : l.tasks[i]? = some task) : task.phase = .waiting := by
  have hturn := h.turn rfl
  rw [phase?, htask, Option.map_some] at hturn
  generalize task.phase = phase at hturn
  cases hturn
  rfl

/-- With its event in hand, a task goes over to another phase and the event that belongs to it. -/
theorem exchange {hand : List Event} {i : Nat} {task' : Task} (h : Orderly slots [e] l)
    (habout : e.task? = some i) (hi : i < l.tasks.length)
    (hturn : Turn i (some task'.phase) (about i hand)) (hhand : ∀ e ∈ hand, ∀ j ≠ i, e.task? ≠ some j)
    (halarm : ∀ fault, task'.phase = .failed fault → ∃ e ∈ hand, e.fault?.isSome)
    (hfaults : ∀ e ∈ hand, ∀ fault, e.fault? = some fault → task'.phase = .failed fault)
    (hslots : n + [e].countP Event.holdsSlot = slots + hand.countP Event.holdsSlot) :
    Orderly n hand (l.setTask i task') := by
  have hquiet : e.fault? = none := by
    cases e <;> first | rfl | cases habout
  have hself : (l.setTask i task').phase? i = some task'.phase := by
    simp [phase?, setTask, List.getElem?_set_self hi]
  have hother : ∀ j ≠ i, (l.setTask i task').phase? j = l.phase? j := by
    intro j hj
    simp [phase?, setTask, List.getElem?_set_ne (Ne.symm hj)]
  refine ⟨?_, ?_, h.queue, ?_, ?_⟩
  · intro j
    have hj := h.turns j
    change Turn j _ (about j (hand ++ l.events))
    rw [about_append]
    by_cases hij : j = i
    · subst hij
      rw [hself, h.alone habout, List.append_nil]
      exact hturn
    · have hnone : about j hand = [] := by
        simpa [about, List.filter_eq_nil_iff] using fun e he => hhand e he j hij
      rw [hother j hij, hnone, List.nil_append]
      rwa [List.singleton_append, about_cons_of_ne] at hj
      rw [habout]
      exact fun heq => hij (Option.some.inj heq).symm
  · have := h.slots
    simp only [setTask, taken, scheduled] at this ⊢
    omega
  · intro j fault hphase
    by_cases hij : j = i
    · subst hij
      rw [hself, Option.some.injEq] at hphase
      obtain ⟨e', he', hfault⟩ := halarm fault hphase
      exact ⟨e', List.mem_append_left _ he', hfault⟩
    · rw [hother j hij] at hphase
      obtain ⟨e', he', hfault⟩ := h.alarm j fault hphase
      rcases List.mem_cons.mp he' with rfl | he'
      · rw [hquiet] at hfault
        cases hfault
      · exact ⟨e', List.mem_append_right _ he', hfault⟩
  · intro e' he' fault hfault
    rcases List.mem_append.mp he' with he' | he'
    · exact ⟨i, by rw [hself, hfaults e' he' fault hfault]⟩
    · obtain ⟨j, hphase⟩ := h.faults e' (List.mem_cons_of_mem _ he') fault hfault
      have hij : j ≠ i := by
        rintro rfl
        have hturn := h.turn habout
        rw [hphase] at hturn
        cases hturn
      exact ⟨j, by rwa [hother j hij]⟩

theorem fail {i : Nat} {task : Task} {fault : Fault} (h : Orderly slots [e] l)
    (habout : e.task? = some i) (hi : i < l.tasks.length)
    (hslots : n + [e].countP Event.holdsSlot = slots) : Orderly n [] (l.fail i task fault) := by
  apply last
  refine h.exchange habout hi .failed ?_ ?_ ?_ ?_
  · simp [Event.task?]
  · exact fun _ _ => ⟨.report fault, by simp, rfl⟩
  · simp [Event.fault?]
  · simpa [Event.holdsSlot] using hslots

theorem paused {i : Nat} {task : Task} {pause : Except NumberError (Option Number)}
    (h : Orderly slots [e] l) (habout : e.task? = some i) (hi : i < l.tasks.length)
    (hslots : n + [e].countP Event.holdsSlot = slots) : Orderly n [] (l.paused pause i task) := by
  have hasking : Orderly n [.ask i] (l.setTask i { task with phase := .waiting }) := by
    refine h.exchange habout hi ?_ ?_ (fun _ hfailed => by cases hfailed) ?_ ?_
    · simpa [about, Event.task?] using .asking
    · simpa [Event.task?] using fun j hj heq => hj heq.symm
    · simp [Event.fault?]
    · simpa [Event.holdsSlot] using hslots
  unfold Level.paused
  split
  · exact h.fail habout hi hslots
  · exact hasking.next
  · exact (hasking.withLine _).later rfl

/-- A task that asks for a slot is let in, or waits behind the others. -/
theorem ask {i : Nat} (h : Orderly slots [.ask i] l) : Orderly slots [] (l.ask i) := by
  have hentering : Orderly (slots + 1) [.enter i] l := by
    have hturn := h.turn rfl
    cases htask : l.tasks[i]? with
    | none =>
      rw [phase?, htask] at hturn
      cases hturn
    | some task =>
      obtain ⟨code, failures, phase⟩ := task
      have hi := (List.getElem?_eq_some_iff.mp htask).1
      rw [phase?, htask, Option.map_some] at hturn
      cases hturn
      rw [← setTask_self htask]
      refine h.exchange rfl hi ?_ ?_ (fun _ hfailed => by cases hfailed) ?_ rfl
      · simpa [about, Event.task?] using .queued
      · simpa [Event.task?] using fun j hj heq => hj heq.symm
      · simp [Event.fault?]
  have hslots := hentering.slots
  unfold Level.ask
  split
  · rename_i hfree
    refine hentering.of_perm _ (.refl _) rfl ?_ ?_ fun _ he _ => he
    · simp only [Level.next, taken, scheduled, List.cons_append, List.countP_cons, List.countP_nil]
        at hslots ⊢
      omega
    · exact fun hne => absurd (List.isEmpty_iff.mp hfree.2) hne
  · rename_i hfull
    refine hentering.of_perm _ ?_ rfl ?_ ?_ ?_
    · simp only [events, scheduled, List.map_append, List.map_cons, List.map_nil, List.nil_append,
        List.singleton_append]
      rw [← List.append_assoc]
      exact (List.perm_append_singleton _ _).symm
    · simpa [taken, scheduled, Event.holdsSlot] using hslots
    · intro _
      by_cases hempty : l.queue = []
      · simpa [hempty] using hfull
      · exact h.queue hempty
    · intro e he hfault
      rcases List.mem_cons.mp he with rfl | he
      · cases hfault
      · exact he

theorem moved (h : Orderly slots [] l) (instant : Binary64) :
    Orderly slots [] (l.moved instant) := by
  have hscheduled := l.scheduled_moved instant
  refine h.of_perm _ (hscheduled.append_right _) rfl ?_ h.queue ?_
  · have hslots := h.slots
    rw [taken, hscheduled.countP_eq] at hslots
    exact hslots
  · intro e he _
    simp only [List.nil_append] at he ⊢
    exact List.mem_append_left _ he

theorem enter {source : Source σ} {i : Nat} {task : Task} (h : Orderly slots [.enter i] l)
    (hi : i < l.tasks.length) : Orderly slots [] (l.enter source i task) := by
  have hrequesting : ∀ (line : Timeline σ) call reply, Orderly slots [.answer i]
      ({ l with line }.setTask i { task with phase := .requesting call reply }) := by
    intro line call reply
    refine (h.withLine line).exchange rfl hi ?_ ?_ (fun _ hfailed => by cases hfailed) ?_ rfl
    · simpa [about, Event.task?] using .requesting
    · simpa [Event.task?] using fun j hj heq => hj heq.symm
    · simp [Event.fault?]
  simp only [Level.enter]
  split
  · exact (hrequesting _ _ _).next
  · exact (hrequesting _ _ _).later rfl

theorem proceed {t : Tuning} {i : Nat} {task : Task} (h : Orderly (slots + 1) [.answer i] l)
    (hi : i < l.tasks.length) (verdict : Verdict) :
    Orderly slots [] (l.proceed t i task verdict) := by
  unfold Level.proceed
  split
  · exact (h.withLine _).exchange rfl hi .settled (by simp) (fun _ hfailed => by cases hfailed)
      (by simp) rfl
  · exact (h.withLine _).paused rfl hi rfl
  · exact h.fail rfl hi rfl

theorem abort {fault : Fault} (h : Orderly slots [.report fault] l) :
    Orderly slots [.abort fault] l where
  turns i := by
    have hi := h.turns i
    rw [List.singleton_append, about_cons_of_ne (by simp [Event.task?])] at hi ⊢
    exact hi
  slots := h.slots
  queue := h.queue
  alarm _ _ _ := ⟨.abort fault, List.mem_cons_self, rfl⟩
  faults e he fault' hfault := by
    rcases List.mem_cons.mp he with rfl | he
    · exact h.faults (.report fault) List.mem_cons_self fault' hfault
    · exact h.faults e (List.mem_cons_of_mem _ he) fault' hfault

theorem happen {t : Tuning} {source : Source σ} {l' : Level σ} (h : Orderly slots [e] l)
    (hhappen : Level.happen t source l e = .ok l') : Orderly slots [] l' := by
  cases e with
  | begin i =>
    have hturn := h.turn rfl
    simp only [Level.happen] at hhappen
    split at hhappen <;> cases hhappen
    · rename_i task htask
      exact h.paused rfl (List.getElem?_eq_some_iff.mp htask).1 rfl
    · rename_i hnone
      rw [phase?, hnone] at hturn
      cases hturn
  | ask i =>
    cases hhappen
    exact h.ask
  | enter i =>
    have hturn := h.turn rfl
    simp only [Level.happen] at hhappen
    split at hhappen <;> cases hhappen
    · rename_i task htask
      exact h.enter (List.getElem?_eq_some_iff.mp htask).1
    · rename_i hnone
      rw [phase?, hnone] at hturn
      cases hturn
  | answer i =>
    have hturn := h.turn rfl
    simp only [Level.happen] at hhappen
    split at hhappen
    · rename_i task htask
      rw [phase?, htask, Option.map_some] at hturn
      split at hhappen
      · rename_i call reply _
        cases hhappen
        refine (h.hangUp call reply).proceed ?_ _
        rw [tasks_hangUp]
        exact (List.getElem?_eq_some_iff.mp htask).1
      · rename_i hphase
        generalize task.phase = phase at hturn hphase
        cases hturn
        exact absurd rfl (hphase _ _)
    · rename_i hnone
      rw [phase?, hnone] at hturn
      cases hturn
  | report fault =>
    cases hhappen
    exact h.abort.last
  | abort fault => cases hhappen

theorem ofCodes (t : Tuning) (codes : List String) (line : Timeline σ) :
    Orderly t.maxConcurrency [] (Level.ofCodes t codes line) where
  turns i := by
    have habout : about i ((List.range codes.length).map .begin) =
        if i < codes.length then [.begin i] else [] := about_begin i codes.length
    simp only [phase?, events, scheduled, Level.ofCodes, List.map_nil, List.append_nil, List.nil_append,
      habout, List.getElem?_map]
    split
    · rename_i hi
      rw [List.getElem?_eq_getElem hi]
      exact .idle
    · rename_i hi
      rw [List.getElem?_eq_none (Nat.le_of_not_lt hi)]
      exact .absent
  slots := by
    have hnone : ((List.range codes.length).map Event.begin).countP Event.holdsSlot = 0 := by
      simp [List.countP_eq_zero, Event.holdsSlot]
    simp [taken, scheduled, Level.ofCodes, hnone]
  queue hne := absurd rfl hne
  alarm i fault hphase := by
    simp only [phase?, Level.ofCodes, List.getElem?_map, Option.map_map, Option.map_eq_some_iff] at hphase
    obtain ⟨code, _, hphase⟩ := hphase
    cases hphase
  faults e he fault hfault := by
    simp only [events, scheduled, Level.ofCodes, List.map_nil, List.append_nil, List.nil_append,
      List.mem_map] at he
    obtain ⟨i, _, rfl⟩ := he
    cases hfault

theorem step {t : Tuning} {source : Source σ} {cancelAt : Option Binary64} {order : Order σ}
    {l' : Level σ} (h : Orderly slots [] l) (hstep : l.step t source cancelAt order = .ok l') :
    Orderly slots [] l' := by
  rcases step_ok hstep with ⟨event, held, hpick, hhappen⟩ | ⟨_, till, _, _, rfl⟩
  · exact (h.pick hpick).happen hhappen
  · exact h.moved till

/-- Where nothing is scheduled, every task is settled. -/
theorem settled (h : Orderly slots [] l) (hslots : 0 < slots) (hready : l.ready = [])
    (htimers : l.timers = []) : ∀ task ∈ l.tasks, ∃ s, task.phase = .settled s := by
  have hscheduled : l.scheduled = [] := by simp [scheduled, hready, htimers]
  have hqueue : l.queue = [] := by
    by_contra hne
    have hfree := h.queue hne
    have hcount := h.slots
    simp only [taken, hscheduled, List.countP_nil] at hcount
    omega
  intro task htask
  obtain ⟨i, hi⟩ := List.mem_iff_getElem?.mp htask
  have hturn := h.turns i
  have halarm := h.alarm i
  simp only [phase?, hi, Option.map_some, events, hscheduled, hqueue, List.map_nil, List.append_nil,
    about, List.filter_nil, hready] at hturn halarm
  generalize task.phase = phase at hturn halarm
  cases hturn with
  | settled => exact ⟨_, rfl⟩
  | failed =>
    obtain ⟨e, he, _⟩ := halarm _ rfl
    cases he

end Orderly

theorem results?_eq_some_iff {l : Level σ} {results : List Settled} :
    l.results? = some results ↔ l.tasks.map Task.phase = results.map Phase.settled := by
  unfold results?
  generalize l.tasks = tasks
  induction tasks generalizing results with
  | nil => cases results <;> simp
  | cons task tasks ih =>
    obtain ⟨code, failures, phase⟩ := task
    rw [List.mapM_cons]
    cases results with
    | nil => cases phase <;> simp [Option.bind_eq_some_iff]
    | cons result results => cases phase <;> simp [Option.bind_eq_some_iff, ih, and_comm]

theorem exists_results {l : Level σ} (h : ∀ task ∈ l.tasks, ∃ s, task.phase = .settled s) :
    ∃ results, l.results? = some results := by
  simp only [results?_eq_some_iff]
  generalize l.tasks = tasks at h
  induction tasks with
  | nil => exact ⟨[], rfl⟩
  | cons task tasks ih =>
    obtain ⟨s, hs⟩ := h task List.mem_cons_self
    obtain ⟨results, hresults⟩ := ih fun task htask => h task (List.mem_cons_of_mem _ htask)
    exact ⟨s :: results, by simp [hs, hresults]⟩

/-- A level that cannot take a step has all its results, unless it is cancelled. -/
theorem Orderly.wait_ok {slots : Nat} {l : Level σ} (h : Orderly slots [] l) (hslots : 0 < slots)
    (hready : l.ready = []) (hresults : l.results? = none) : ∃ l', l.wait none = .ok l' := by
  unfold wait
  cases htimers : l.timers with
  | nil =>
    obtain ⟨results, hsome⟩ := exists_results (h.settled hslots hready htimers)
    rw [hsome] at hresults
    cases hresults
  | cons timer rest =>
    cases hearliest : earliest (timer :: rest) with
    | none =>
      simp only [earliest] at hearliest
      split at hearliest <;> cases hearliest
    | some till => exact ⟨_, rfl⟩

end Level

end AdminConsole.Resolve
