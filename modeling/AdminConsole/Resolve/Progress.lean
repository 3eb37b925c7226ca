import AdminConsole.Resolve.Schedule

/-!
Running a level to its end. Every event has a weight: it bounds the events that can still follow
from it, given how many attempts its task has left. Each step takes weight away, so a level ends
whatever the order of its events, the source and the tuning.
-/

namespace AdminConsole.Resolve

def left (t : Tuning) (tasks : List Task) (i : Nat) : Nat :=
  match tasks[i]? with
  | some task => t.maxAttempts - 1 - task.failures
  | none => 0

theorem left_set_self {t : Tuning} {tasks : List Task} {i : Nat} {task : Task} (task' : Task)
    (h : tasks[i]? = some task) :
    left t (tasks.set i task') i = t.maxAttempts - 1 - task'.failures := by
  have hi : i < tasks.length := (List.getElem?_eq_some_iff.mp h).1
  simp [left, List.getElem?_set_self hi]

/-- A task that gets no attempts back has no more repetitions left than before. -/
theorem left_set_le {t : Tuning} {tasks : List Task} {i : Nat} {task task' : Task}
    (h : tasks[i]? = some task) (hle : task.failures ≤ task'.failures) (j : Nat) :
    left t (tasks.set i task') j ≤ left t tasks j := by
  by_cases hij : i = j
  · subst hij
    rw [left_set_self task' h]
    simp only [left, h]
    omega
  · simp [left, List.getElem?_set_ne hij]

/-- The weight of an event, given the repetitions that each task has left. -/
def Event.weight (left : Nat → Nat) : Event → Nat
  | .begin i => 5 * left i + 8
  | .ask i => 5 * left i + 6
  | .enter i => 5 * left i + 5
  | .answer i => 5 * left i + 3
  | .report _ => 2
  | .abort _ => 1

def totalWeight (left : Nat → Nat) : List Event → Nat
  | [] => 0
  | event :: rest => event.weight left + totalWeight left rest

theorem totalWeight_append (left : Nat → Nat) (a b : List Event) :
    totalWeight left (a ++ b) = totalWeight left a + totalWeight left b := by
  induction a with
  | nil => simp [totalWeight]
  | cons event rest ih => simp [totalWeight, ih, Nat.add_assoc]

theorem Event.weight_mono {left left' : Nat → Nat} (h : ∀ i, left' i ≤ left i) (event : Event) :
    event.weight left' ≤ event.weight left := by
  cases event <;> simp only [weight] <;> grind

theorem totalWeight_mono {left left' : Nat → Nat} (h : ∀ i, left' i ≤ left i) (events : List Event) :
    totalWeight left' events ≤ totalWeight left events := by
  induction events with
  | nil => exact Nat.le_refl 0
  | cons event rest ih => exact Nat.add_le_add (event.weight_mono h) ih

theorem totalWeight_eraseIdx (left : Nat → Nat) {events : List Event} {place : Nat} {event : Event}
    (h : events[place]? = some event) :
    event.weight left + totalWeight left (events.eraseIdx place) = totalWeight left events := by
  induction events generalizing place with
  | nil => simp at h
  | cons head rest ih =>
    cases place with
    | zero =>
      simp only [List.getElem?_cons_zero, Option.some.injEq] at h
      simp [totalWeight, h]
    | succ place =>
      have hrest : _ = totalWeight left rest := @ih place (by simpa using h)
      simp only [List.eraseIdx_cons_succ, totalWeight]
      omega

/-- The weight of timers: an event that is due later weighs one more. -/
def timersWeight (left : Nat → Nat) (timers : List (Binary64 × Event)) : Nat :=
  totalWeight left (timers.map Prod.snd) + timers.length

namespace Level

variable {σ : Type}

def weight (t : Tuning) (l : Level σ) : Nat :=
  totalWeight (left t l.tasks) l.ready + timersWeight (left t l.tasks) l.timers +
    totalWeight (left t l.tasks) (l.queue.map .enter)

theorem weight_setTask_le {t : Tuning} {l : Level σ} {i : Nat} {task : Task} (task' : Task)
    (h : l.tasks[i]? = some task) (hle : task.failures ≤ task'.failures) :
    (l.setTask i task').weight t ≤ l.weight t := by
  have hmono := totalWeight_mono (left_set_le (t := t) h hle)
  have hready := hmono l.ready
  have htimers := hmono (l.timers.map Prod.snd)
  have hqueue := hmono (l.queue.map .enter)
  simp only [weight, timersWeight, setTask]
  omega

theorem weight_next (t : Tuning) (l : Level σ) (event : Event) :
    (l.next event).weight t = event.weight (left t l.tasks) + l.weight t := by
  simp only [weight, next, totalWeight]
  omega

theorem weight_last (t : Tuning) (l : Level σ) (event : Event) :
    (l.last event).weight t = event.weight (left t l.tasks) + l.weight t := by
  simp only [weight, last, totalWeight_append, totalWeight]
  omega

theorem weight_later (t : Tuning) (l : Level σ) (seconds : Number) (event : Event) :
    (l.later seconds event).weight t = event.weight (left t l.tasks) + 1 + l.weight t := by
  simp only [weight, later, timersWeight, List.map_append, totalWeight_append, totalWeight, List.map_cons,
    List.map_nil, List.length_append, List.length_cons, List.length_nil]
  omega

/-- Giving a slot back moves a waiting task on, which weighs the same. -/
theorem weight_release (t : Tuning) (l : Level σ) : l.release.weight t = l.weight t := by
  unfold release
  split
  · rfl
  · rename_i i queue h
    rw [weight_last]
    simp only [weight, h, List.map_cons, totalWeight]
    omega

theorem weight_hangUp (t : Tuning) (l : Level σ) (call : Nat) (reply : Reply) :
    (l.hangUp call reply).weight t = l.weight t := by
  rw [hangUp, weight_release]
  rfl

theorem tasks_hangUp (l : Level σ) (call : Nat) (reply : Reply) :
    (l.hangUp call reply).tasks = l.tasks := by
  unfold hangUp release
  split <;> rfl

theorem weight_fail_le {t : Tuning} {l : Level σ} {i : Nat} {task : Task} (fault : Fault)
    (task' : Task) (h : l.tasks[i]? = some task) (hle : task.failures ≤ task'.failures) :
    (l.fail i task' fault).weight t ≤ 2 + l.weight t := by
  have hset := weight_setTask_le (t := t) { task' with phase := .failed fault } h hle
  rw [fail, weight_last]
  simp only [Event.weight]
  omega

theorem weight_paused_le {t : Tuning} {l : Level σ} {i : Nat} {task : Task} (task' : Task)
    (pause : Except NumberError (Option Number)) (h : l.tasks[i]? = some task)
    (hle : task.failures ≤ task'.failures) :
    (l.paused pause i task').weight t ≤
      5 * (t.maxAttempts - 1 - task'.failures) + 7 + l.weight t := by
  have hset := weight_setTask_le (t := t) { task' with phase := .waiting } h hle
  have hself := left_set_self (t := t) { task' with phase := .waiting } h
  unfold paused
  split
  · rename_i cause
    have := weight_fail_le (t := t) (.number cause) task' h hle
    omega
  · rw [weight_next]
    simp only [Event.weight, setTask, hself] at hset ⊢
    omega
  · rw [weight_later]
    simp only [Event.weight, setTask, hself]
    simp only [weight, setTask] at hset ⊢
    omega

theorem weight_ask_le (t : Tuning) (l : Level σ) (i : Nat) :
    (l.ask i).weight t ≤ 5 * left t l.tasks i + 5 + l.weight t := by
  unfold ask
  split
  · rw [weight_next]
    exact Nat.le_refl _
  · simp only [weight, List.map_append, List.map_cons, List.map_nil, totalWeight_append, totalWeight,
      Event.weight]
    omega

theorem weight_enter_le (t : Tuning) (source : Source σ) {l : Level σ} {i : Nat} {task : Task}
    (h : l.tasks[i]? = some task) :
    (l.enter source i task).weight t ≤ 5 * left t l.tasks i + 4 + l.weight t := by
  simp only [enter]
  generalize htask : ({ task with
    phase := .requesting l.line.calls.length (source task.code l.line.source).1 } : Task) = task'
  have hfailures : task'.failures = task.failures := by rw [← htask]
  have hset := weight_setTask_le (t := t) task' h (by omega)
  have hleft := left_set_self (t := t) task' h
  split
  · rw [weight_next]
    simp only [Event.weight, weight, setTask, left, h] at hset hleft ⊢
    omega
  · rw [weight_later]
    simp only [Event.weight, weight, setTask, left, h] at hset hleft ⊢
    omega

theorem weight_proceed_le (t : Tuning) {l : Level σ} {i : Nat} {task : Task}
    (outcome : Except Fault (List Node)) (h : l.tasks[i]? = some task) :
    (l.proceed t i task (t.judge task.failures outcome)).weight t ≤
      5 * left t l.tasks i + 2 + l.weight t := by
  unfold proceed
  split
  · rename_i s _
    have := weight_setTask_le (t := t) { task with phase := .settled s } h (Nat.le_refl _)
    simp only [weight, setTask] at this ⊢
    omega
  · rename_i hagain
    have hleft := Tuning.attempts_left hagain
    have := weight_paused_le (t := t) (l := { l with line.report := l.line.report.retry })
      { task with failures := task.failures + 1 } (t.pauseAfter task.failures) h (Nat.le_succ _)
    simp only [left, h, weight] at this ⊢
    omega
  · rename_i fault _
    have := weight_fail_le (t := t) fault task h (Nat.le_refl _)
    omega

/-- An event that happens takes its weight away and brings less. -/
theorem weight_happen_lt {t : Tuning} {source : Source σ} {l l' : Level σ} {event : Event}
    (h : happen t source l event = .ok l') :
    l'.weight t < event.weight (left t l.tasks) + l.weight t := by
  cases event with
  | begin i =>
    simp only [happen] at h
    split at h <;> cases h
    · rename_i task htask
      have := weight_paused_le (t := t) task (t.pauseAt i) htask (Nat.le_refl _)
      simp only [Event.weight, left, htask]
      omega
    · simp only [Event.weight]
      omega
  | ask i =>
    cases h
    have := weight_ask_le t l i
    simp only [Event.weight]
    omega
  | enter i =>
    simp only [happen] at h
    split at h <;> cases h
    · rename_i task htask
      have := weight_enter_le t source htask
      simp only [Event.weight]
      omega
    · simp only [Event.weight]
      omega
  | answer i =>
    simp only [happen] at h
    split at h
    · rename_i task htask
      split at h <;> cases h
      · rename_i call reply _
        have := weight_proceed_le t (l := l.hangUp call reply) reply.outcome
          (by rw [tasks_hangUp]; exact htask)
        rw [weight_hangUp, tasks_hangUp] at this
        simp only [Event.weight]
        omega
      · simp only [Event.weight]
        omega
    · cases h
      simp only [Event.weight]
      omega
  | report fault =>
    cases h
    rw [weight_last]
    simp only [Event.weight]
    omega
  | abort fault => cases h

theorem weight_pick {t : Tuning} {order : Order σ} {l l' : Level σ} {event : Event}
    (h : l.pick order = some (event, l')) :
    event.weight (left t l'.tasks) + l'.weight t = l.weight t := by
  simp only [pick, Option.map_eq_some_iff, Prod.mk.injEq] at h
  obtain ⟨_, hevent, rfl, rfl⟩ := h
  have := totalWeight_eraseIdx (left t l.tasks) hevent
  simp only [weight]
  omega

end Level

theorem Binary64.lt_irrefl (x : Binary64) : x.lt x = false := by
  cases x with
  | nan => rfl
  | infinite negative => cases negative <;> rfl
  | finite negative rank bounded => simp [Binary64.lt]

namespace Level

variable {σ : Type}

theorem earliest_mem {timers : List (Binary64 × Event)} {instant : Binary64}
    (h : earliest timers = some instant) : ∃ event, (instant, event) ∈ timers := by
  induction timers generalizing instant with
  | nil => cases h
  | cons timer rest ih =>
    obtain ⟨time, event⟩ := timer
    simp only [earliest] at h
    split at h
    · cases h
      exact ⟨event, List.mem_cons_self⟩
    · rename_i best hbest
      cases h
      split
      · obtain ⟨event, hevent⟩ := ih hbest
        exact ⟨event, List.mem_cons_of_mem _ hevent⟩
      · exact ⟨event, List.mem_cons_self⟩

/-- Timers that are due weigh less as events, and those that are not stay. -/
theorem timersWeight_split (left : Nat → Nat) (due : Binary64 × Event → Bool)
    (timers : List (Binary64 × Event)) :
    totalWeight left ((timers.filter due).map Prod.snd) + (timers.filter due).length +
      timersWeight left (timers.filter fun timer => !due timer) = timersWeight left timers := by
  induction timers with
  | nil => rfl
  | cons timer rest ih =>
    cases h : due timer <;> simp [h, timersWeight, totalWeight] at ih ⊢ <;> omega

theorem weight_moved_lt (t : Tuning) {l : Level σ} {instant : Binary64}
    (h : earliest l.timers = some instant) : (l.moved instant).weight t < l.weight t := by
  have hsplit := timersWeight_split (left t l.tasks) (fun timer => !instant.lt timer.1) l.timers
  simp only [Bool.not_not] at hsplit
  obtain ⟨event, hevent⟩ := earliest_mem h
  have hdue : 0 < (l.timers.filter fun timer => !instant.lt timer.1).length := by
    apply List.length_pos_of_mem (a := (instant, event))
    simp [hevent, Binary64.lt_irrefl]
  simp only [weight, moved, totalWeight_append]
  omega

theorem weight_wait_lt {t : Tuning} {cancelAt : Option Binary64} {l l' : Level σ}
    (h : l.wait cancelAt = .ok l') : l'.weight t < l.weight t := by
  unfold wait at h
  split at h
  · cases h
  · rename_i till htill
    split at h
    · cases h
      exact weight_moved_lt t htill
    · split at h <;> cases h
      exact weight_moved_lt t htill

theorem weight_step_lt {t : Tuning} {source : Source σ} {cancelAt : Option Binary64}
    {order : Order σ} {l l' : Level σ} (h : l.step t source cancelAt order = .ok l') :
    l'.weight t < l.weight t := by
  unfold step at h
  split at h
  · rename_i event held hpick
    split at h <;> cases h
    rename_i hhappen
    have := weight_pick (t := t) hpick
    have := weight_happen_lt hhappen
    omega
  · exact weight_wait_lt h

def run (t : Tuning) (source : Source σ) (cancelAt : Option Binary64) (order : Order σ)
    (l : Level σ) : Except Stop (List Settled) × Timeline σ :=
  match l.results? with
  | some results => (.ok results, l.line)
  | none =>
    match _next : l.step t source cancelAt order with
    | .error (stop, line) => (.error stop, line)
    | .ok l => run t source cancelAt order l
termination_by l.weight t
decreasing_by exact weight_step_lt _next

end Level

def onSchedule {σ : Type} (t : Tuning) (source : Source σ) (cancelAt : Option Binary64)
    (order : Order σ) : Gather (Timeline σ) :=
  fun codes line => (Level.ofCodes t codes line).run t source cancelAt order

end AdminConsole.Resolve
