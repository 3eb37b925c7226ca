import AdminConsole.Proofs.Resolve.Instants
import AdminConsole.Proofs.Resolve.Moments

/-!
The requests of a level on the clock. Every query follows its course: it waits for its place in the
level, makes a request, and waits again before it makes another one. No event comes before its
time, so no request begins before its query may make it. A task is taken out of the level while its
event happens and is put back once its course goes on.
-/

namespace AdminConsole.Resolve

variable {σ : Type} {t : Tuning} {source : Source σ}

def callsFor (code : String) (calls : List Call) : List Call := calls.filter fun c => c.code = code

theorem callsFor_append (code : String) (a b : List Call) :
    callsFor code (a ++ b) = callsFor code a ++ callsFor code b := by
  simp [callsFor]

theorem mem_callsFor {code : String} {calls : List Call} {c : Call} :
    c ∈ callsFor code calls ↔ c ∈ calls ∧ c.code = code := by
  simp [callsFor]

/-- The calls of a query that goes on, and the instant before which it makes no other one. -/
inductive Tried (t : Tuning) (place : Nat) (began : Binary64) : List Call → Binary64 → Prop where
  | first {pause : Option Number} : t.pauseAt place = .ok pause →
    Tried t place began [] (afterPause began pause)
  | again {calls : List Call} {due ended : Binary64} {call : Call} {how : CallEnd}
    {pause : Option Number} : Tried t place began calls due → due ≤ call.start →
    call.finish = some (ended, how) → t.judge calls.length call.outcome = .again →
    t.pauseAfter calls.length = .ok pause →
    Tried t place began (calls ++ [call]) (afterPause ended pause)

/-- How far the query of the task at a place has come: its phase, its failures, and its calls. A
task that waits is awaited at the instant at which it may go on, and a failure is never old. -/
inductive Course (t : Tuning) (place : Nat) (began now : Binary64) (awaited : Binary64 → Prop) :
    Phase → Nat → List Call → Prop where
  | idle : now = began → Course t place began now awaited .idle 0 []
  | waiting {calls : List Call} {due : Binary64} : Tried t place began calls due → awaited due →
    Course t place began now awaited .waiting calls.length calls
  | requesting {calls : List Call} {due : Binary64} {call : Call} {k : Nat} {reply : Reply} :
    Tried t place began calls due → due ≤ call.start → call.outcome = reply.outcome →
    call.finish = none →
    Course t place began now awaited (.requesting k reply) calls.length (calls ++ [call])
  | settled {calls : List Call} {due ended : Binary64} {call : Call} {how : CallEnd} {s : Settled} :
    Tried t place began calls due → due ≤ call.start → call.finish = some (ended, how) →
    t.judge calls.length call.outcome = .settled s →
    Course t place began now awaited (.settled s) calls.length (calls ++ [call])
  | unplaced {cause : NumberError} {failures : Nat} : t.pauseAt place = .error cause →
    Course t place began now awaited (.failed (.number cause)) failures []
  | unpaused {calls : List Call} {due : Binary64} {call : Call} {how : CallEnd}
    {cause : NumberError} {failures : Nat} :
    Tried t place began calls due → due ≤ call.start → call.finish = some (now, how) →
    t.judge calls.length call.outcome = .again → t.pauseAfter calls.length = .error cause →
    Course t place began now awaited (.failed (.number cause)) failures (calls ++ [call])
  | broken {calls : List Call} {due : Binary64} {call : Call} {how : CallEnd} {fault : Fault}
    {failures : Nat} :
    Tried t place began calls due → due ≤ call.start → call.finish = some (now, how) →
    t.judge calls.length call.outcome = .broken fault →
    Course t place began now awaited (.failed fault) failures (calls ++ [call])

theorem Tried.closed {place : Nat} {began due : Binary64} {calls : List Call}
    (h : Tried t place began calls due) : ∀ c ∈ calls, c.finish ≠ none := by
  induction h with
  | first => simp
  | again _ _ hfinish _ _ ih =>
    intro c hc
    rcases List.mem_append.mp hc with hc | hc
    · exact ih c hc
    · obtain rfl := List.mem_singleton.mp hc
      simp [hfinish]

theorem Course.mono {place : Nat} {began now : Binary64} {awaited awaited' : Binary64 → Prop}
    {phase : Phase} {failures : Nat} {calls : List Call}
    (h : Course t place began now awaited phase failures calls)
    (hmono : ∀ due, awaited due → awaited' due) :
    Course t place began now awaited' phase failures calls := by
  cases h with
  | idle hnow => exact .idle hnow
  | waiting htried hdue => exact .waiting htried (hmono _ hdue)
  | requesting htried hdue houtcome hopen => exact .requesting htried hdue houtcome hopen
  | settled htried hdue hfinish hjudge => exact .settled htried hdue hfinish hjudge
  | unplaced hpause => exact .unplaced hpause
  | unpaused htried hdue hfinish hjudge hpause => exact .unpaused htried hdue hfinish hjudge hpause
  | broken htried hdue hfinish hjudge => exact .broken htried hdue hfinish hjudge

/-- The clock moves for the tasks that wait and for those that are settled. -/
theorem Course.moved {place : Nat} {began now later : Binary64} {awaited awaited' : Binary64 → Prop}
    {phase : Phase} {failures : Nat} {calls : List Call}
    (h : Course t place began now awaited phase failures calls) (hidle : phase ≠ .idle)
    (hfailed : ∀ fault, phase ≠ .failed fault) (hmono : ∀ due, awaited due → awaited' due) :
    Course t place began later awaited' phase failures calls := by
  cases h with
  | idle => exact absurd rfl hidle
  | waiting htried hdue => exact .waiting htried (hmono _ hdue)
  | requesting htried hdue houtcome hopen => exact .requesting htried hdue houtcome hopen
  | settled htried hdue hfinish hjudge => exact .settled htried hdue hfinish hjudge
  | unplaced | unpaused | broken => exact absurd rfl (hfailed _)

/-- A call that a level made: it began in the level, and if it has ended it was not cancelled. -/
structure Call.Within (began now : Binary64) (c : Call) : Prop where
  began : began ≤ c.start
  start : c.start ≤ now
  finish : ∀ ended how, c.finish = some (ended, how) →
    c.start ≤ ended ∧ ended ≤ now ∧ how ≠ .cancelled

theorem Call.Within.mono {began now later : Binary64} {c : Call} (h : c.Within began now)
    (hle : now ≤ later) : c.Within began later where
  began := h.began
  start := Binary64.le_trans h.start hle
  finish ended how hfinish := by
    obtain ⟨hstart, hended, hhow⟩ := h.finish ended how hfinish
    exact ⟨hstart, Binary64.le_trans hended hle, hhow⟩

section Closing

variable {made calls : List Call} {k : Nat} {c last : Call} {code : String} {close : Call → Call}
  (hclose : ∀ c, (close c).code = c.code)
include hclose

theorem callsFor_modify_of_ne (hk : made[k]? = some c) (hne : c.code ≠ code) :
    callsFor code (made.modify k close) = callsFor code made := by
  induction made generalizing k with
  | nil => simp at hk
  | cons head rest ih =>
    cases k with
    | zero =>
      obtain rfl : head = c := by simpa using hk
      simp [callsFor, hclose, hne]
    | succ k =>
      have hrest := ih (by simpa using hk)
      simp only [callsFor, List.modify_succ_cons, List.filter_cons] at hrest ⊢
      rw [hrest]

/-- An open call is the last one of a query whose other calls have ended. -/
theorem callsFor_modify_self (hk : made[k]? = some c) (hcode : c.code = code)
    (hopen : c.finish = none) (hcalls : callsFor code made = calls ++ [last])
    (hclosed : ∀ c ∈ calls, c.finish ≠ none) :
    callsFor code (made.modify k close) = calls ++ [close last] := by
  induction made generalizing k calls with
  | nil => simp at hk
  | cons head rest ih =>
    cases k with
    | zero =>
      obtain rfl : head = c := by simpa using hk
      have hhead : callsFor code (head :: rest) = head :: callsFor code rest := by
        simp [callsFor, hcode]
      rw [hhead] at hcalls
      cases calls with
      | nil =>
        obtain ⟨rfl, hrest⟩ := List.cons.inj hcalls
        simpa [callsFor, hclose, hcode] using hrest
      | cons x calls =>
        obtain ⟨rfl, _⟩ := List.cons.inj hcalls
        exact absurd hopen (hclosed head List.mem_cons_self)
    | succ k =>
      have hrest : rest[k]? = some c := by simpa using hk
      have hmem : c ∈ callsFor code rest := mem_callsFor.mpr ⟨List.mem_of_getElem? hrest, hcode⟩
      rw [List.modify_succ_cons]
      by_cases hhead : head.code = code
      · simp only [callsFor, List.filter_cons, hhead, decide_true, if_true] at hcalls hmem ⊢
        cases calls with
        | nil =>
          rw [(List.cons.inj hcalls).2] at hmem
          cases hmem
        | cons x calls =>
          obtain ⟨rfl, htail⟩ := List.cons.inj hcalls
          rw [List.cons_append]
          exact congrArg _ (ih hrest htail fun c hc => hclosed c (List.mem_cons_of_mem _ hc))
      · simp only [callsFor, List.filter_cons, hhead, decide_false] at hcalls ⊢
        exact ih hrest hcalls hclosed

end Closing

namespace Level

/-- The events that are ahead, each with its instant; tasks in the queue may go on at any time. -/
def agenda (l : Level σ) : List (Binary64 × Event) :=
  (l.ready ++ l.queue.map Event.enter).map (fun event => (l.line.now, event)) ++ l.timers

/-- Nothing ahead of the task at a place comes before an instant. -/
def Awaits (l : Level σ) (i : Nat) (due : Binary64) : Prop :=
  ∀ entry ∈ l.agenda, entry.2.task? = some i → due ≤ entry.1

theorem agenda_not_about {l : Level σ} {i : Nat} (h : about i l.events = []) :
    ∀ entry ∈ l.agenda, entry.2.task? ≠ some i := by
  intro entry hentry
  have hevent : entry.2 ∈ l.events := by
    simp only [agenda, events, scheduled, List.mem_append, List.mem_map] at hentry ⊢
    grind
  simpa using List.filter_eq_nil_iff.mp h entry.2 hevent

/-- A task that enters makes its call, and the answer is due at once or later. -/
theorem enter_eq (source : Source σ) (l : Level σ) (i : Nat) (task : Task) :
    let reply := (source task.code l.line.source).1
    let task' := { task with phase := .requesting l.line.calls.length reply }
    ∃ line : Timeline σ, line.calls = l.line.calls ++ [⟨task.code, reply.outcome, l.line.now, none⟩] ∧
      line.now = l.line.now ∧ line.peak = max l.line.peak line.openCalls ∧
      (l.enter source i task = ({ l with line }.setTask i task').next (.answer i) ∨
        ∃ delay, l.enter source i task = ({ l with line }.setTask i task').later delay (.answer i)) := by
  intro reply task'
  let calls := l.line.calls ++ [⟨task.code, reply.outcome, l.line.now, none⟩]
  let line : Timeline σ := { l.line with source := (source task.code l.line.source).2, calls }
  refine ⟨{ line with peak := max l.line.peak line.openCalls }, rfl, rfl, rfl, ?_⟩
  simp only [enter]
  split
  · exact .inl rfl
  · exact .inr ⟨reply.delay, rfl⟩

section Now

variable {l l' : Level σ} {i : Nat} {task : Task}

@[simp] theorem now_paused (pause : Except NumberError (Option Number)) :
    (l.paused pause i task).line.now = l.line.now := by
  unfold paused
  split <;> rfl

@[simp] theorem now_ask : (l.ask i).line.now = l.line.now := by
  unfold ask
  split <;> rfl

@[simp] theorem now_enter : (l.enter source i task).line.now = l.line.now := by
  obtain ⟨line, _, hnow, _, henter⟩ := enter_eq source l i task
  rcases henter with henter | ⟨delay, henter⟩ <;> rw [henter] <;> exact hnow

@[simp] theorem now_hangUp (call : Nat) (reply : Reply) :
    (l.hangUp call reply).line.now = l.line.now := by
  unfold hangUp release
  split <;> rfl

@[simp] theorem now_proceed (verdict : Verdict) :
    (l.proceed t i task verdict).line.now = l.line.now := by
  unfold proceed
  split
  · rfl
  · rw [now_paused]
  · rfl

/-- Events take no time. -/
theorem now_happen {e : Event} (h : happen t source l e = .ok l') : l'.line.now = l.line.now := by
  cases e with
  | begin i | enter i => simp only [happen] at h; split at h <;> cases h <;> simp
  | ask i =>
    cases h
    exact now_ask
  | answer i =>
    simp only [happen] at h
    split at h
    · split at h <;> cases h <;> simp
    · cases h
      rfl
  | report fault =>
    cases h
    rfl
  | abort fault => cases h

end Now

/-- The clock of a level and the calls it has made since some calls before it. A task that is taken
out of the level is left out of account. -/
structure Clocked (t : Tuning) (codes : List String) (before : Timeline σ) (made : List Call)
    (out : Option Nat) (l : Level σ) : Prop where
  names : l.tasks.map Task.code = codes
  calls : l.line.calls = before.calls ++ made
  asked : ∀ c ∈ made, c.code ∈ codes
  within : ∀ c ∈ made, c.Within before.now l.line.now
  since : before.now ≤ l.line.now
  ahead : ∀ entry ∈ l.agenda, l.line.now ≤ entry.1
  timers : ∀ timer ∈ l.timers, ∃ i, timer.2 = .ask i ∨ timer.2 = .answer i
  courses : ∀ i task, out ≠ some i → l.tasks[i]? = some task →
    Course t i before.now l.line.now (l.Awaits i) task.phase task.failures (callsFor task.code made)
  links : ∀ i task call reply, out ≠ some i → l.tasks[i]? = some task →
    task.phase = .requesting call reply → ∃ k c, call = before.calls.length + k ∧
      made[k]? = some c ∧ c.code = task.code ∧ c.finish = none

namespace Clocked

variable {codes : List String} {before : Timeline σ} {made : List Call} {out : Option Nat}
  {l : Level σ} {i : Nat} {task : Task} {e : Event}

/-- Events may leave the agenda, and events may come that are about no task left in the level. -/
theorem reschedule {l' : Level σ} (h : Clocked t codes before made out l) (htasks : l'.tasks = l.tasks)
    (hcalls : l'.line.calls = l.line.calls) (hnow : l'.line.now = l.line.now)
    (hagenda : ∀ entry ∈ l'.agenda, entry ∈ l.agenda ∨
      l.line.now ≤ entry.1 ∧ ∀ i, entry.2.task? = some i → out = some i)
    (htimers : ∀ timer ∈ l'.timers, timer ∈ l.timers ∨
      ∃ i, timer.2 = .ask i ∨ timer.2 = .answer i) :
    Clocked t codes before made out l' where
  names := htasks ▸ h.names
  calls := hcalls ▸ h.calls
  asked := h.asked
  within := hnow ▸ h.within
  since := hnow ▸ h.since
  ahead entry hentry := by
    rw [hnow]
    rcases hagenda entry hentry with hold | hnew
    · exact h.ahead entry hold
    · exact hnew.1
  timers timer htimer := by
    rcases htimers timer htimer with hold | hnew
    · exact h.timers timer hold
    · exact hnew
  courses i task hin htask := by
    rw [hnow]
    refine (h.courses i task hin (htasks ▸ htask)).mono fun due hdue entry hentry habout => ?_
    rcases hagenda entry hentry with hold | hnew
    · exact hdue entry hold habout
    · exact absurd (hnew.2 i habout) hin
  links i task call reply hin htask := h.links i task call reply hin (htasks ▸ htask)

theorem alike {l' : Level σ} (h : Clocked t codes before made out l) (htasks : l'.tasks = l.tasks)
    (hcalls : l'.line.calls = l.line.calls) (hnow : l'.line.now = l.line.now)
    (hagenda : l'.agenda = l.agenda) (htimers : l'.timers = l.timers) :
    Clocked t codes before made out l' :=
  h.reschedule htasks hcalls hnow (fun _ hentry => .inl (hagenda ▸ hentry))
    fun _ htimer => .inl (htimers ▸ htimer)

theorem takeOut (h : Clocked t codes before made none l) (i : Nat) :
    Clocked t codes before made (some i) l :=
  { h with
    courses := fun j task _ => h.courses j task nofun
    links := fun j task call reply _ => h.links j task call reply nofun }

theorem number (h : Clocked t codes before made out l) : l.line.now ≤ l.line.now :=
  Binary64.le_right h.since

theorem next (h : Clocked t codes before made out l) (habout : ∀ i, e.task? = some i → out = some i) :
    Clocked t codes before made out (l.next e) := by
  refine h.reschedule rfl rfl rfl ?_ fun timer htimer => .inl htimer
  intro entry hentry
  simp only [Level.next, agenda, List.cons_append, List.map_cons, List.mem_cons] at hentry
  rcases hentry with rfl | hentry
  · exact .inr ⟨h.number, habout⟩
  · exact .inl hentry

theorem last (h : Clocked t codes before made out l) (habout : ∀ i, e.task? = some i → out = some i) :
    Clocked t codes before made out (l.last e) := by
  refine h.reschedule rfl rfl rfl ?_ fun timer htimer => .inl htimer
  intro entry hentry
  by_cases heq : entry = (l.line.now, e)
  · exact .inr (heq ▸ ⟨h.number, habout⟩)
  · left
    simp only [Level.last, agenda, List.map_append, List.map_cons, List.map_nil, List.mem_append,
      List.mem_singleton] at hentry ⊢
    grind

theorem later (seconds : Number) (h : Clocked t codes before made out l)
    (habout : ∀ i, e.task? = some i → out = some i) (htimer : ∃ i, e = .ask i ∨ e = .answer i) :
    Clocked t codes before made out (l.later seconds e) := by
  refine h.reschedule rfl rfl rfl ?_ ?_
  · intro entry hentry
    simp only [Level.later, agenda, ← List.append_assoc] at hentry
    rcases List.mem_append.mp hentry with hentry | hentry
    · exact .inl hentry
    · obtain rfl := List.mem_singleton.mp hentry
      exact .inr ⟨le_instantAfter h.number seconds, habout⟩
  · intro timer hmem
    rcases List.mem_append.mp hmem with hold | hnew
    · exact .inl hold
    · obtain rfl := List.mem_singleton.mp hnew
      exact .inr htimer

theorem release (h : Clocked t codes before made out l) :
    Clocked t codes before made out l.release := by
  unfold Level.release
  split
  · exact h.alike rfl rfl rfl rfl rfl
  · rename_i j queue hqueue
    refine h.reschedule rfl rfl rfl (fun entry hentry => .inl ?_) fun timer htimer => .inl htimer
    simp only [Level.last, agenda, hqueue, List.map_cons, List.map_append, List.map_nil, List.mem_append,
      List.mem_cons] at hentry ⊢
    grind

theorem pick {order : Order σ} {held : Level σ} (h : Clocked t codes before made out l)
    (hpick : l.pick order = some (e, held)) :
    Clocked t codes before made out held ∧ (l.line.now, e) ∈ l.agenda := by
  simp only [Level.pick, Option.map_eq_some_iff, Prod.mk.injEq] at hpick
  obtain ⟨_, hevent, rfl, rfl⟩ := hpick
  have hready := List.mem_of_getElem? hevent
  refine ⟨h.reschedule rfl rfl rfl (fun entry hentry => .inl ?_) fun timer htimer => .inl htimer, ?_⟩
  · simp only [agenda, List.map_append, List.mem_append, List.mem_map] at hentry ⊢
    rcases hentry with (⟨event, hmem, heq⟩ | hentry) | hentry
    · exact .inl (.inl ⟨event, List.mem_of_mem_eraseIdx hmem, heq⟩)
    · exact .inl (.inr hentry)
    · exact .inr hentry
  · simp only [agenda, List.map_append, List.mem_append, List.mem_map]
    exact .inl (.inl ⟨_, hready, rfl⟩)

/-- The calls for the code of a task that was taken out may change. -/
theorem amend {made' : List Call} {line : Timeline σ} (h : Clocked t codes before made (some i) l)
    (hnodup : codes.Nodup) (htask : l.tasks[i]? = some task)
    (hcalls : line.calls = before.calls ++ made') (hnow : line.now = l.line.now)
    (hmade : ∀ c ∈ made', c ∈ made ∨ c.code = task.code ∧ c.Within before.now l.line.now)
    (hothers : ∀ code, code ≠ task.code → callsFor code made' = callsFor code made)
    (hlinks : ∀ (k : Nat) (c : Call), made[k]? = some c → c.code ≠ task.code → made'[k]? = some c) :
    Clocked t codes before made' (some i) { l with line } := by
  have hmem : task.code ∈ codes := h.names ▸ List.mem_map_of_mem (List.mem_of_getElem? htask)
  have hne : ∀ j other, some i ≠ some j → l.tasks[j]? = some other → other.code ≠ task.code := by
    intro j other hj hother heq
    rw [← h.names] at hnodup
    refine hj (congrArg some ((List.getElem?_inj ?_ hnodup).mp ?_))
    · simpa using (List.getElem?_eq_some_iff.mp htask).1
    · simp [hother, htask, heq]
  have hagenda : Level.agenda { l with line } = l.agenda := by
    simp only [agenda, hnow]
  refine ⟨h.names, hcalls, ?_, ?_, hnow ▸ h.since, ?_, h.timers, ?_, ?_⟩
  · intro c hc
    rcases hmade c hc with hold | ⟨hcode, _⟩
    · exact h.asked c hold
    · exact hcode ▸ hmem
  · intro c hc
    rw [hnow]
    rcases hmade c hc with hold | ⟨_, hwithin⟩
    · exact h.within c hold
    · exact hwithin
  · rw [hagenda, hnow]
    exact h.ahead
  · intro j other hj hother
    rw [hnow, hothers _ (hne j other hj hother)]
    refine (h.courses j other hj hother).mono fun due hdue => ?_
    rw [Awaits, hagenda]
    exact hdue
  · intro j other call reply hj hother hphase
    obtain ⟨k, c, hcall, hk, hcode, hopen⟩ := h.links j other call reply hj hother hphase
    exact ⟨k, c, hcall, hlinks k c hk (hcode ▸ hne j other hj hother), hcode, hopen⟩

/-- A task that was taken out makes a call. -/
theorem called {call : Call} {line : Timeline σ} (h : Clocked t codes before made (some i) l)
    (hnodup : codes.Nodup) (htask : l.tasks[i]? = some task) (hcode : call.code = task.code)
    (hwithin : call.Within before.now l.line.now) (hcalls : line.calls = l.line.calls ++ [call])
    (hnow : line.now = l.line.now) :
    Clocked t codes before (made ++ [call]) (some i) { l with line } := by
  refine h.amend hnodup htask ?_ hnow ?_ ?_ ?_
  · rw [hcalls, h.calls, List.append_assoc]
  · intro c hc
    rcases List.mem_append.mp hc with hc | hc
    · exact .inl hc
    · obtain rfl := List.mem_singleton.mp hc
      exact .inr ⟨hcode, hwithin⟩
  · intro other hne
    have hnone : callsFor other [call] = [] := by
      simpa [callsFor, hcode] using Ne.symm hne
    rw [callsFor_append, hnone, List.append_nil]
  · intro k c hk _
    rw [List.getElem?_append_left (List.getElem?_eq_some_iff.mp hk).1]
    exact hk

/-- A task is put back with the course it has taken. -/
theorem putBack (task' : Task) (h : Clocked t codes before made (some i) l)
    (htask : l.tasks[i]? = some task) (hcode : task'.code = task.code)
    (hcourse : Course t i before.now l.line.now (l.Awaits i) task'.phase task'.failures
      (callsFor task.code made))
    (hlink : ∀ call reply, task'.phase = .requesting call reply → ∃ k c,
      call = before.calls.length + k ∧ made[k]? = some c ∧ c.code = task.code ∧ c.finish = none) :
    Clocked t codes before made none (l.setTask i task') := by
  have hi : i < l.tasks.length := (List.getElem?_eq_some_iff.mp htask).1
  refine ⟨?_, h.calls, h.asked, h.within, h.since, h.ahead, h.timers, ?_, ?_⟩
  · rw [← h.names, setTask, List.map_set, hcode]
    exact set_self (by simp [htask])
  · intro j other _ hother
    by_cases hij : i = j
    · subst hij
      simp only [setTask, List.getElem?_set_self hi, Option.some.injEq] at hother
      subst hother
      rw [hcode]
      exact hcourse
    · simp only [setTask, List.getElem?_set_ne hij] at hother
      exact h.courses j other (by simpa using hij) hother
  · intro j other call reply _ hother
    by_cases hij : i = j
    · subst hij
      simp only [setTask, List.getElem?_set_self hi, Option.some.injEq] at hother
      subst hother
      rw [hcode]
      exact hlink call reply
    · simp only [setTask, List.getElem?_set_ne hij] at hother
      exact h.links j other call reply (by simpa using hij) hother

theorem fail {task' : Task} {fault : Fault} (h : Clocked t codes before made (some i) l)
    (htask : l.tasks[i]? = some task) (hcode : task'.code = task.code)
    (hcourse : ∀ awaited, Course t i before.now l.line.now awaited (.failed fault) task'.failures
      (callsFor task.code made)) :
    Clocked t codes before made none (l.fail i task' fault) := by
  have hlast : Clocked t codes before made (some i) (l.last (.report fault)) := h.last nofun
  exact hlast.putBack { task' with phase := .failed fault } htask hcode (hcourse _)
    fun _ _ hphase => by cases hphase

/-- A task that pauses before its next call may make it when the pause is over. -/
theorem paused {task' : Task} {pause : Except NumberError (Option Number)}
    (h : Clocked t codes before made (some i) l) (halone : about i l.events = [])
    (htask : l.tasks[i]? = some task) (hcode : task'.code = task.code)
    (hok : ∀ p, pause = .ok p → task'.failures = (callsFor task.code made).length ∧
      Tried t i before.now (callsFor task.code made) (afterPause l.line.now p))
    (herror : ∀ cause, pause = .error cause → ∀ awaited, Course t i before.now l.line.now awaited
      (.failed (.number cause)) task'.failures (callsFor task.code made)) :
    Clocked t codes before made none (l.paused pause i task') := by
  unfold Level.paused
  split
  · exact h.fail htask hcode (herror _ rfl)
  · obtain ⟨hfailures, htried⟩ := hok none rfl
    have hnext : Clocked t codes before made (some i) (l.next (.ask i)) := h.next (by simp [Event.task?])
    refine hnext.putBack { task' with phase := .waiting } htask hcode ?_
      fun _ _ hphase => by cases hphase
    dsimp only
    rw [hfailures]
    refine .waiting htried fun entry hentry habout => ?_
    simp only [Level.next, agenda, List.cons_append, List.map_cons, List.mem_cons] at hentry
    rcases hentry with rfl | hentry
    · exact h.number
    · exact absurd habout (agenda_not_about halone entry hentry)
  · rename_i seconds
    obtain ⟨hfailures, htried⟩ := hok (some seconds) rfl
    have hline : Clocked t codes before made (some i)
        { l with line.pauses := l.line.pauses ++ [seconds] } :=
      h.alike rfl rfl rfl rfl rfl
    have hlater := hline.later seconds (e := .ask i) (by simp [Event.task?]) ⟨i, .inl rfl⟩
    refine hlater.putBack { task' with phase := .waiting } htask hcode ?_
      fun _ _ hphase => by cases hphase
    dsimp only
    rw [hfailures]
    refine .waiting htried fun entry hentry habout => ?_
    simp only [Level.later, agenda, ← List.append_assoc] at hentry
    rcases List.mem_append.mp hentry with hentry | hentry
    · exact absurd habout (agenda_not_about halone entry hentry)
    · obtain rfl := List.mem_singleton.mp hentry
      exact Binary64.le_right (le_instantAfter h.number seconds)

/-- A task takes its course at the instant of its event, which is not before the task may go on. -/
theorem course_of_hand {order : Order σ} {held : Level σ} (h : Clocked t codes before made none l)
    (hpick : l.pick order = some (e, held)) (habout : e.task? = some i)
    (htask : held.tasks[i]? = some task) :
    Course t i before.now held.line.now (fun due => due ≤ held.line.now) task.phase task.failures
      (callsFor task.code made) := by
  obtain ⟨htasks, hline⟩ := pick_kept hpick
  rw [htasks] at htask
  rw [hline]
  exact (h.courses i task nofun htask).mono fun due hdue => hdue _ (h.pick hpick).2 habout

section Happen

variable {slots : Nat} {held : Level σ} {calls : List Call} {due : Binary64}
  (h : Clocked t codes before made (some i) held) (htask : held.tasks[i]? = some task)
include h htask

theorem begin (horderly : held.Orderly slots [.begin i])
    (hcourse : Course t i before.now held.line.now (fun due => due ≤ held.line.now) task.phase
      task.failures (callsFor task.code made)) :
    Clocked t codes before made none (held.paused (t.pauseAt i) i task) := by
  have hphase := horderly.idle htask
  obtain ⟨code, failures, phase⟩ := task
  cases hphase
  generalize hcalls : callsFor code made = calls at hcourse
  cases hcourse with
  | idle hnow =>
    refine h.paused (horderly.alone rfl) htask rfl ?_ ?_
    · intro pause hpause
      rw [hcalls, hnow]
      exact ⟨rfl, .first hpause⟩
    · intro cause hcause awaited
      rw [hcalls]
      exact .unplaced hcause

theorem ask (horderly : held.Orderly slots [.ask i])
    (hcourse : Course t i before.now held.line.now (fun due => due ≤ held.line.now) task.phase
      task.failures (callsFor task.code made)) :
    Clocked t codes before made none (held.ask i) := by
  have hphase : task.phase = .waiting := by
    have hturn := horderly.turn rfl
    rw [phase?, htask, Option.map_some] at hturn
    generalize task.phase = phase at hturn
    cases hturn
    rfl
  have halone := agenda_not_about (horderly.alone rfl)
  rw [hphase] at hcourse
  generalize hcalls : callsFor task.code made = calls at hcourse
  generalize hfailures : task.failures = failures at hcourse
  cases hcourse with
  | @waiting _ due htried hdue =>
    have hput : ∀ l' : Level σ, Clocked t codes before made (some i) l' → l'.tasks = held.tasks →
        l'.line.now = held.line.now → (∀ entry ∈ l'.agenda, entry ∈ held.agenda ∨
          entry = (held.line.now, .enter i)) → Clocked t codes before made none l' := by
      intro l' hl' htasks hnow hagenda
      rw [← htasks] at htask
      rw [← setTask_self htask]
      have hwaiting : ∀ entry ∈ l'.agenda, entry.2.task? = some i → due ≤ entry.1 := by
        intro entry hentry habout
        rcases hagenda entry hentry with hold | rfl
        · exact absurd habout (halone entry hold)
        · exact hdue
      refine hl'.putBack task htask rfl ?_ fun _ _ hrequesting => ?_
      · rw [hphase, hcalls, hfailures]
        exact .waiting htried hwaiting
      · rw [hphase] at hrequesting
        cases hrequesting
    unfold Level.ask
    split
    · have hfree : Clocked t codes before made (some i) { held with free := held.free - 1 } :=
        h.alike rfl rfl rfl rfl rfl
      refine hput _ (hfree.next (by simp [Event.task?])) rfl rfl fun entry hentry => ?_
      exact (List.mem_cons.mp hentry).symm
    · have hqueue : ∀ entry ∈ Level.agenda { held with queue := held.queue ++ [i] },
          entry ∈ held.agenda ∨ entry = (held.line.now, .enter i) := by
        intro entry hentry
        simp only [agenda, List.map_append, List.map_cons, List.map_nil, List.mem_append,
          List.mem_singleton] at hentry ⊢
        grind
      refine hput _ (h.reschedule rfl rfl rfl ?_ fun timer htimer => .inl htimer) rfl rfl hqueue
      intro entry hentry
      rcases hqueue entry hentry with hold | rfl
      · exact .inl hold
      · exact .inr ⟨h.number, by simp [Event.task?]⟩

/-- A task that enters makes its call at once, so not before it is due. -/
theorem enter (hnodup : codes.Nodup) (horderly : held.Orderly slots [.enter i])
    (hcourse : Course t i before.now held.line.now (fun due => due ≤ held.line.now) task.phase
      task.failures (callsFor task.code made)) :
    Clocked t codes before
      (made ++ [⟨task.code, (source task.code held.line.source).1.outcome, held.line.now, none⟩]) none
      (held.enter source i task) := by
  have hphase := horderly.waiting htask
  obtain ⟨code, failures, phase⟩ := task
  cases hphase
  generalize hcalls : callsFor code made = calls at hcourse
  cases hcourse with
  | @waiting _ due htried hdue =>
    generalize hreply : source code held.line.source = reply
    obtain ⟨reply, state⟩ := reply
    generalize hcall : Call.mk code reply.outcome held.line.now none = call
    have hcode : call.code = code := by rw [← hcall]
    have hwithin : call.Within before.now held.line.now := by
      rw [← hcall]
      exact ⟨h.since, h.number, by simp⟩
    have hmade : callsFor code (made ++ [call]) = calls ++ [call] := by
      rw [callsFor_append, hcalls]
      simp [callsFor, hcode]
    obtain ⟨line, hlinecalls, hnow, _, henter⟩ := enter_eq source held i ⟨code, calls.length, .waiting⟩
    simp only [hreply, hcall] at hlinecalls henter
    have hline : Clocked t codes before (made ++ [call]) (some i) { held with line } :=
      h.called hnodup htask hcode hwithin hlinecalls hnow
    have hcourse : ∀ awaited, Course t i before.now line.now awaited
        (.requesting held.line.calls.length reply) calls.length (callsFor code (made ++ [call])) := by
      intro awaited
      rw [hmade]
      refine .requesting htried ?_ ?_ ?_ <;> rw [← hcall]
      exact hdue
    have hlink : ∀ k reply', Phase.requesting held.line.calls.length reply = .requesting k reply' →
        ∃ k' c, k = before.calls.length + k' ∧ (made ++ [call])[k']? = some c ∧ c.code = code ∧
          c.finish = none := by
      rintro k reply' ⟨⟩
      exact ⟨made.length, call, by simp [h.calls], by simp, hcode, by rw [← hcall]⟩
    rcases henter with henter | ⟨delay, henter⟩
    · have hnext := hline.next (e := .answer i) (by simp [Event.task?])
      rw [henter]
      exact hnext.putBack ⟨code, calls.length, .requesting _ reply⟩ htask rfl (hcourse _) hlink
    · have hlater := hline.later delay (e := .answer i) (by simp [Event.task?]) ⟨i, .inr rfl⟩
      rw [henter]
      exact hlater.putBack ⟨code, calls.length, .requesting _ reply⟩ htask rfl (hcourse _) hlink

/-- The call of a task ends now, and it was the last one of its query. -/
theorem hangUp {call : Nat} {reply : Reply} {last : Call} (hnodup : codes.Nodup)
    (hlink : ∃ k c, call = before.calls.length + k ∧ made[k]? = some c ∧ c.code = task.code ∧
      c.finish = none)
    (hcalls : callsFor task.code made = calls ++ [last])
    (hclosed : ∀ c ∈ calls, c.finish ≠ none) :
    ∃ made' how, Clocked t codes before made' (some i) (held.hangUp call reply) ∧
      callsFor task.code made' = calls ++ [{ last with finish := some (held.line.now, how) }] := by
  obtain ⟨k, c, rfl, hk, hcode, hopen⟩ := hlink
  generalize hhow : (if reply.returned then CallEnd.returned else .raised) = how
  have hnot : how ≠ .cancelled := by
    rw [← hhow]
    split <;> simp
  let close : Call → Call := fun c => { c with finish := some (held.line.now, how) }
  have hclose : ∀ c, (close c).code = c.code := fun _ => rfl
  have hget : ∀ j, (made.modify k close)[j]? = if k = j then (made[j]?).map close else made[j]? := by
    intro j
    rw [List.getElem?_modify]
    split <;> simp
  refine ⟨made.modify k close, how, release (h.amend hnodup htask ?_ rfl ?_ ?_ ?_), ?_⟩
  · simp only [Timeline.close, hhow, h.calls]
    exact List.modifyTailIdx_add _ k before.calls made
  · intro x hx
    obtain ⟨j, hj⟩ := List.mem_iff_getElem?.mp hx
    rw [hget] at hj
    split at hj
    · rename_i hkj
      subst hkj
      rw [hk, Option.map_some, Option.some.injEq] at hj
      subst hj
      have hwithin := h.within c (List.mem_of_getElem? hk)
      refine .inr ⟨hcode, hwithin.began, hwithin.start, ?_⟩
      rintro _ _ ⟨⟩
      exact ⟨hwithin.start, h.number, hnot⟩
    · exact .inl (List.mem_of_getElem? hj)
  · intro other hne
    exact callsFor_modify_of_ne hclose hk (hcode ▸ Ne.symm hne)
  · intro j x hj hne
    rw [hget]
    split
    · rename_i hkj
      subst hkj
      rw [hk, Option.some.injEq] at hj
      exact absurd (hj ▸ hcode) hne
    · exact hj
  · exact callsFor_modify_self hclose hk hcode hopen hcalls hclosed

/-- A task goes on from the end of its last call. -/
theorem proceed {last : Call} {how : CallEnd} {outcome : Except Fault (List Node)}
    (halone : about i held.events = [])
    (hcalls : callsFor task.code made = calls ++ [last]) (hfailures : task.failures = calls.length)
    (htried : Tried t i before.now calls due) (hdue : due ≤ last.start)
    (hfinish : last.finish = some (held.line.now, how)) (houtcome : last.outcome = outcome) :
    Clocked t codes before made none (held.proceed t i task (t.judge task.failures outcome)) := by
  subst houtcome
  have hreport : ∀ report, Clocked t codes before made (some i) { held with line.report := report } :=
    fun _ => h.alike rfl rfl rfl rfl rfl
  rw [hfailures]
  cases hjudge : t.judge calls.length last.outcome with
  | settled s =>
    simp only [Level.proceed]
    refine (hreport _).putBack { task with phase := .settled s } htask rfl ?_
      fun _ _ hphase => by cases hphase
    rw [hcalls, hfailures]
    exact .settled htried hdue hfinish hjudge
  | again =>
    simp only [Level.proceed]
    refine (hreport _).paused halone htask rfl ?_ ?_
    · intro pause hpause
      rw [hcalls]
      refine ⟨by simp [hfailures], ?_⟩
      exact .again htried hdue hfinish hjudge (hfailures ▸ hpause)
    · intro cause hcause awaited
      rw [hcalls]
      exact .unpaused htried hdue hfinish hjudge (hfailures ▸ hcause)
  | broken fault =>
    simp only [Level.proceed]
    refine h.fail htask rfl fun awaited => ?_
    rw [hcalls]
    exact .broken htried hdue hfinish hjudge

end Happen

theorem happen {order : Order σ} {slots : Nat} {held l' : Level σ}
    (h : Clocked t codes before made none l) (hnodup : codes.Nodup) (horderly : l.Orderly slots [])
    (hpick : l.pick order = some (e, held)) (hhappen : Level.happen t source held e = .ok l') :
    ∃ made', Clocked t codes before made' none l' := by
  have hheld := (h.pick hpick).1
  have horderly := horderly.pick hpick
  cases e with
  | begin i =>
    simp only [Level.happen] at hhappen
    split at hhappen <;> cases hhappen
    · rename_i task htask
      exact ⟨made, (hheld.takeOut i).begin htask horderly (h.course_of_hand hpick rfl htask)⟩
    · exact ⟨made, hheld⟩
  | ask i =>
    cases hhappen
    have hturn := horderly.turn rfl
    cases htask : held.tasks[i]? with
    | none =>
      rw [phase?, htask] at hturn
      cases hturn
    | some task =>
      exact ⟨made, (hheld.takeOut i).ask htask horderly (h.course_of_hand hpick rfl htask)⟩
  | enter i =>
    simp only [Level.happen] at hhappen
    split at hhappen <;> cases hhappen
    · rename_i task htask
      exact ⟨_, (hheld.takeOut i).enter htask hnodup horderly (h.course_of_hand hpick rfl htask)⟩
    · exact ⟨made, hheld⟩
  | answer i =>
    simp only [Level.happen] at hhappen
    split at hhappen
    · rename_i task htask
      split at hhappen <;> cases hhappen
      · rename_i call reply hphase
        have hlink := hheld.links i task call reply (Option.some_ne_none i).symm htask hphase
        have hcourse := h.course_of_hand hpick rfl htask
        rw [hphase] at hcourse
        generalize hcalls : callsFor task.code made = calls at hcourse
        generalize hfailures : task.failures = failures at hcourse
        cases hcourse with
        | @requesting calls due last _ _ htried hdue houtcome hopen =>
          obtain ⟨made', how, hhung, hmade'⟩ :=
            (hheld.takeOut i).hangUp htask hnodup hlink hcalls htried.closed
          have htask' : (held.hangUp call reply).tasks[i]? = some task := by
            rw [tasks_hangUp]
            exact htask
          rw [← hfailures]
          have halone := (horderly.hangUp call reply).alone rfl
          exact ⟨made', hhung.proceed htask' halone hmade' hfailures htried hdue
            (by rw [now_hangUp]) houtcome⟩
      · exact ⟨made, hheld⟩
    · cases hhappen
      exact ⟨made, hheld⟩
  | report fault =>
    cases hhappen
    exact ⟨made, hheld.last fun _ habout => absurd habout (Option.some_ne_none _).symm⟩
  | abort fault => cases hhappen

/-- The clock moves only while all tasks wait or are settled. -/
theorem moved {slots : Nat} {till : Binary64} (h : Clocked t codes before made none l)
    (horderly : l.Orderly slots []) (hready : l.ready = []) (htill : earliest l.timers = some till) :
    Clocked t codes before made none (l.moved till) := by
  obtain ⟨event, hevent⟩ := earliest_mem htill
  have hle : l.line.now ≤ till := h.ahead (till, event) (List.mem_append_right _ hevent)
  have hagenda : ∀ entry ∈ (l.moved till).agenda, till ≤ entry.1 ∧
      ∃ entry' ∈ l.agenda, entry'.2 = entry.2 ∧ entry'.1 ≤ entry.1 := by
    intro entry hentry
    simp only [agenda, Level.moved, hready, List.nil_append, List.map_append, List.map_map,
      List.mem_append, List.mem_map, List.mem_filter, Function.comp_apply] at hentry
    rcases hentry with (⟨timer, ⟨hmem, hdue⟩, rfl⟩ | ⟨j, hj, rfl⟩) | ⟨hmem, hlt⟩
    · have htimer := h.ahead timer (List.mem_append_right _ hmem)
      refine ⟨Binary64.le_right hle, timer, List.mem_append_right _ hmem, rfl, htimer.2.1, hle.2.1, ?_⟩
      simpa using hdue
    · refine ⟨Binary64.le_right hle, (l.line.now, .enter j), ?_, rfl, hle⟩
      simp only [agenda, List.mem_append, List.mem_map]
      exact .inl ⟨.enter j, .inr ⟨j, hj, rfl⟩, rfl⟩
    · have hentry := List.mem_append_right ((l.ready ++ l.queue.map Event.enter).map
        fun event => (l.line.now, event)) hmem
      exact ⟨Binary64.le_of_lt hlt, entry, hentry, rfl, Binary64.le_right (h.ahead entry hentry)⟩
  refine ⟨h.names, h.calls, h.asked, fun c hc => (h.within c hc).mono hle,
    Binary64.le_trans h.since hle, fun entry hentry => (hagenda entry hentry).1,
    fun timer htimer => h.timers timer (List.mem_filter.mp htimer).1, ?_, h.links⟩
  intro i task _ htask
  replace htask : l.tasks[i]? = some task := htask
  have hturn := horderly.turns i
  have halarm := horderly.alarm i
  simp only [phase?, htask, Option.map_some, List.nil_append, hready] at hturn halarm
  refine (h.courses i task (Option.some_ne_none i).symm htask).moved ?_ ?_
    fun due hdue entry hentry habout => ?_
  · -- A task that is yet to begin has its event among those that are due.
    intro hidle
    rw [hidle] at hturn
    generalize hevents : about i l.events = events at hturn
    cases hturn
    have hbegin : Event.begin i ∈ l.events := List.mem_of_mem_filter (hevents ▸ List.mem_cons_self)
    simp only [events, scheduled, hready, List.nil_append, List.mem_append, List.mem_map] at hbegin
    rcases hbegin with ⟨timer, hmem, heq⟩ | ⟨_, _, heq⟩
    · obtain ⟨j, hask | hanswer⟩ := h.timers timer hmem
      · rw [hask] at heq
        cases heq
      · rw [hanswer] at heq
        cases heq
    · cases heq
  · intro fault hfailed
    obtain ⟨e, he, _⟩ := halarm fault (congrArg some hfailed)
    cases he
  · obtain ⟨_, entry', hentry', heq, hearlier⟩ := hagenda entry hentry
    exact Binary64.le_trans (hdue entry' hentry' (heq ▸ habout)) hearlier

theorem ofCodes (t : Tuning) (codes : List String) (hnow : before.now ≤ before.now) :
    Clocked t codes before [] none (Level.ofCodes t codes before) where
  names := by simp [Level.ofCodes, Function.comp_def]
  calls := by simp [Level.ofCodes]
  asked := by simp
  within := by simp
  since := hnow
  ahead entry hentry := by
    simp only [agenda, Level.ofCodes, List.map_nil, List.append_nil, List.mem_map] at hentry
    obtain ⟨_, _, rfl⟩ := hentry
    exact hnow
  timers := by simp [Level.ofCodes]
  courses i task _ htask := by
    simp only [Level.ofCodes, List.getElem?_map, Option.map_eq_some_iff] at htask
    obtain ⟨code, _, rfl⟩ := htask
    exact .idle rfl
  links i task call reply _ htask hphase := by
    simp only [Level.ofCodes, List.getElem?_map, Option.map_eq_some_iff] at htask
    obtain ⟨code, _, rfl⟩ := htask
    cases hphase

theorem step {slots : Nat} {cancelAt : Option Binary64} {order : Order σ} {l' : Level σ}
    (h : Clocked t codes before made none l) (hnodup : codes.Nodup) (horderly : l.Orderly slots [])
    (hstep : l.step t source cancelAt order = .ok l') :
    ∃ made', Clocked t codes before made' none l' := by
  rcases step_ok hstep with ⟨e, held, hpick, hhappen⟩ | ⟨hready, till, htill, _, rfl⟩
  · exact h.happen hnodup horderly hpick hhappen
  · exact ⟨made, h.moved horderly hready htill⟩

end Clocked

theorem Clocked.now_le_step {codes : List String} {before : Timeline σ}
    {made : List Call} {cancelAt : Option Binary64} {order : Order σ} {l l' : Level σ}
    (h : Clocked t codes before made none l) (hstep : l.step t source cancelAt order = .ok l') :
    l.line.now ≤ l'.line.now := by
  rcases step_ok hstep with ⟨e, held, hpick, hhappen⟩ | ⟨_, till, htill, _, rfl⟩
  · rw [now_happen hhappen, (pick_kept hpick).2]
    exact h.number
  · obtain ⟨event, hevent⟩ := earliest_mem htill
    exact h.ahead (till, event) (List.mem_append_right _ hevent)

/-- All levels of a run are orderly and on the clock. -/
theorem Reaches.clocked {codes : List String} {before : Timeline σ} {cancelAt : Option Binary64}
    {order : Order σ} {m : Level σ}
    (h : (Level.ofCodes t codes before).Reaches t source cancelAt order m) (hnodup : codes.Nodup)
    (hnow : before.now ≤ before.now) :
    m.Orderly t.maxConcurrency [] ∧ ∃ made, Clocked t codes before made none m := by
  induction h with
  | start => exact ⟨.ofCodes t codes before, [], .ofCodes t codes hnow⟩
  | step _ _ hstep ih =>
    obtain ⟨horderly, made, hclocked⟩ := ih
    exact ⟨horderly.step hstep, hclocked.step hnodup horderly hstep⟩

theorem Clocked.call_of_results {codes : List String} {before : Timeline σ} {made : List Call}
    {l : Level σ} {settled : List Settled} (h : Clocked t codes before made none l)
    (hresults : l.results? = some settled) : ∀ c ∈ made, c.finish ≠ none := by
  intro c hc
  obtain ⟨i, hi⟩ := List.mem_iff_getElem?.mp (h.asked c hc)
  rw [← h.names, List.getElem?_map, Option.map_eq_some_iff] at hi
  obtain ⟨task, htask, hcode⟩ := hi
  have hphase := congrArg (fun phases => phases[i]?) (results?_eq_some_iff.mp hresults)
  simp only [List.getElem?_map, htask, Option.map_some] at hphase
  obtain ⟨s, _, hs⟩ := Option.map_eq_some_iff.mp hphase.symm
  have hcourse := h.courses i task nofun htask
  have hmem : c ∈ callsFor task.code made := mem_callsFor.mpr ⟨hc, hcode.symm⟩
  rw [← hs] at hcourse
  generalize callsFor task.code made = calls at hcourse hmem
  generalize task.failures = failures at hcourse
  cases hcourse with
  | settled htried _ hfinish _ =>
    rcases List.mem_append.mp hmem with hmem | hmem
    · exact htried.closed c hmem
    · obtain rfl := List.mem_singleton.mp hmem
      simp [hfinish]

end Level

/-- Between two rounds the clock shows a number, and all calls have ended by themselves. -/
structure Timeline.Rested (line : Timeline σ) : Prop where
  number : line.now ≤ line.now
  ended : ∀ c ∈ line.calls, ∃ ended how, c.finish = some (ended, how) ∧ c.start ≤ ended ∧
    ended ≤ line.now ∧ how ≠ .cancelled

/-- When a call of a level began, and when it ended if it has. -/
theorem Level.Clocked.times {codes : List String} {before : Timeline σ} {made : List Call}
    {l : Level σ} {c : Call} (h : l.Clocked t codes before made none) (hbefore : before.Rested)
    (hc : c ∈ l.line.calls) : c.start ≤ l.line.now ∧ ∀ ended how, c.finish = some (ended, how) →
      c.start ≤ ended ∧ ended ≤ l.line.now ∧ how ≠ .cancelled := by
  rw [h.calls] at hc
  rcases List.mem_append.mp hc with hc | hc
  · obtain ⟨ended, how, hfinish, hstart, hended, hhow⟩ := hbefore.ended c hc
    have hended := Binary64.le_trans hended h.since
    refine ⟨Binary64.le_trans hstart hended, ?_⟩
    rw [hfinish]
    rintro _ _ ⟨⟩
    exact ⟨hstart, hended, hhow⟩
  · exact ⟨(h.within c hc).start, (h.within c hc).finish⟩

theorem rested_start (s : σ) : (Timeline.start s).Rested where
  number := Binary64.le_refl rfl
  ended := by simp [Timeline.start]

variable {cancelAt : Option Binary64} {order : Order σ} {codes : List String}
  {before after : Timeline σ} {settled : List Settled}

/-- A round ends at the last of its moments, which is orderly and on the clock. -/
theorem onSchedule_last (outcome : Except Stop (List Settled)) (hnodup : codes.Nodup)
    (hbefore : before.now ≤ before.now)
    (h : onSchedule t source cancelAt order codes before = (outcome, after)) :
    ∃ m made, (Level.ofCodes t codes before).Reaches t source cancelAt order m ∧
      m.Last cancelAt (outcome, after) ∧ m.Orderly t.maxConcurrency [] ∧
      m.Clocked t codes before made none := by
  have hstart := Level.Orderly.ofCodes t codes before
  obtain ⟨m, hreaches, hlast⟩ := hstart.run_last t.concurrency_pos
  obtain ⟨horderly, made, hclocked⟩ := hreaches.clocked hnodup hbefore
  exact ⟨m, made, hreaches, h ▸ hlast, horderly, hclocked⟩

theorem Timeline.Rested.round (hnodup : codes.Nodup) (hbefore : before.Rested)
    (h : onSchedule t source cancelAt order codes before = (.ok settled, after)) : after.Rested := by
  obtain ⟨m, made, _, hlast, _, hclocked⟩ := onSchedule_last _ hnodup hbefore.number h
  cases hlast with
  | settled hresults =>
    refine ⟨hclocked.number, fun c hc => ?_⟩
    have hclosed : c.finish ≠ none := by
      rw [hclocked.calls] at hc
      rcases List.mem_append.mp hc with hc | hc
      · obtain ⟨_, _, hfinish, _⟩ := hbefore.ended c hc
        simp [hfinish]
      · exact hclocked.call_of_results hresults c hc
    obtain ⟨⟨ended, how⟩, hfinish⟩ := Option.ne_none_iff_exists'.mp hclosed
    exact ⟨ended, how, hfinish, (hclocked.times hbefore hc).2 ended how hfinish⟩

theorem rested_before {depth : Nat} {parent : String} {s : σ} :
    ∀ r ∈ timedRounds t source cancelAt order depth parent s, r.before.Rested :=
  (linked_timedRounds t source cancelAt order depth parent s).before (rested_start s)
    fun _ _ _ _ hnodup hbefore h => hbefore.round hnodup h

end AdminConsole.Resolve
