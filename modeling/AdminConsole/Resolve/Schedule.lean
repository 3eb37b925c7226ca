import AdminConsole.Resolve.Levels

/-!
Settling the queries of a level side by side on a virtual clock. Every query is a task that waits
for its turn, for a free slot, for its request or for another attempt. Slots are handed to waiting
tasks in the order they came. The clock moves only when no task can go on; a fault of one task
ends the level once the end of that task has been noticed, and the open requests are cancelled
then. Which of the tasks that can go on at an instant does so next is left to an order.
-/

namespace AdminConsole.Resolve

/-- The instant some seconds after another. A wait of no length, or of none that makes sense, is
over at once. -/
def instantAfter (now : Binary64) (seconds : Number) : Binary64 :=
  match seconds.toReal with
  | .ok x => now.latest (now.add x)
  | .error _ => .infinite false

inductive CallEnd where
  | returned
  | raised
  | cancelled
  deriving DecidableEq, Repr

/-- A request: what came of it, when it was begun, and when and how it ended. -/
structure Call where
  code : String
  outcome : Except Fault (List Node)
  start : Binary64
  finish : Option (Binary64 × CallEnd)

def Call.asked (c : Call) : Asked := ⟨c.code, c.outcome⟩

/-- What goes on from level to level: the clock, the source, the requests in the order they were
begun, the pauses, the most requests that were open at once, and the report. -/
structure Timeline (σ : Type) where
  now : Binary64
  source : σ
  calls : List Call
  pauses : List Number
  peak : Nat
  report : Report

inductive Phase where
  | idle
  | waiting
  | requesting (call : Nat) (reply : Reply)
  | settled (result : Settled)
  | failed (fault : Fault)

structure Task where
  code : String
  failures : Nat
  phase : Phase

inductive Event where
  | begin (task : Nat)
  | ask (task : Nat)
  | enter (task : Nat)
  | answer (task : Nat)
  | report (fault : Fault)
  | abort (fault : Fault)

/-- A level that is being settled: the free slots, the tasks that wait for one, the events that
are due now and the ones that are due later. -/
structure Level (σ : Type) where
  line : Timeline σ
  tasks : List Task
  free : Nat
  queue : List Nat
  ready : List Event
  timers : List (Binary64 × Event)

/-- The place of the event that happens next among those that are due. -/
abbrev Order (σ : Type) := Level σ → Nat

/-- Events happen in the order they came. -/
def firstCome {σ : Type} : Order σ := fun _ => 0

namespace Timeline

variable {σ : Type}

def start (source : σ) : Timeline σ := ⟨.zero, source, [], [], 0, .empty⟩

def log (line : Timeline σ) : List Asked := line.calls.map Call.asked

def ledger (line : Timeline σ) : Ledger σ := ⟨line.source, line.log, line.report⟩

def openCalls (line : Timeline σ) : Nat := line.calls.countP fun call => call.finish.isNone

def close (line : Timeline σ) (call : Nat) (how : CallEnd) : Timeline σ :=
  { line with calls := line.calls.modify call fun c => { c with finish := some (line.now, how) } }

def cancelOpen (line : Timeline σ) : Timeline σ :=
  { line with calls := line.calls.map fun c =>
      if c.finish.isNone then { c with finish := some (line.now, .cancelled) } else c }

def after (line : Timeline σ) (seconds : Number) : Binary64 := instantAfter line.now seconds

end Timeline

namespace Level

variable {σ : Type}

def setTask (l : Level σ) (i : Nat) (task : Task) : Level σ :=
  { l with tasks := l.tasks.set i task }

def later (l : Level σ) (seconds : Number) (event : Event) : Level σ :=
  { l with timers := l.timers ++ [(l.line.after seconds, event)] }

def next (l : Level σ) (event : Event) : Level σ := { l with ready := event :: l.ready }

def last (l : Level σ) (event : Event) : Level σ := { l with ready := l.ready ++ [event] }

def fail (l : Level σ) (i : Nat) (task : Task) (fault : Fault) : Level σ :=
  (l.setTask i { task with phase := .failed fault }).last (.report fault)

def paused (l : Level σ) (pause : Except NumberError (Option Number)) (i : Nat) (task : Task) :
    Level σ :=
  match pause with
  | .error cause => l.fail i task (.number cause)
  | .ok none => (l.setTask i { task with phase := .waiting }).next (.ask i)
  | .ok (some seconds) =>
    let l := { l with line.pauses := l.line.pauses ++ [seconds] }
    (l.setTask i { task with phase := .waiting }).later seconds (.ask i)

/-- Takes a free slot, or waits behind the tasks that came before. -/
def ask (l : Level σ) (i : Nat) : Level σ :=
  if 0 < l.free ∧ l.queue.isEmpty then { l with free := l.free - 1 }.next (.enter i)
  else { l with queue := l.queue ++ [i] }

def enter (source : Source σ) (l : Level σ) (i : Nat) (task : Task) : Level σ :=
  let (reply, state) := source task.code l.line.source
  let call := l.line.calls.length
  let calls := l.line.calls ++ [⟨task.code, reply.outcome, l.line.now, none⟩]
  let line := { l.line with source := state, calls }
  let line := { line with peak := max line.peak line.openCalls }
  let l := { l with line }.setTask i { task with phase := .requesting call reply }
  if reply.delay.isZero then l.next (.answer i) else l.later reply.delay (.answer i)

/-- Gives a slot back: it goes to the task that has waited longest, if any waits. -/
def release (l : Level σ) : Level σ :=
  match l.queue with
  | [] => { l with free := l.free + 1 }
  | i :: queue => { l with queue }.last (.enter i)

def hangUp (l : Level σ) (call : Nat) (reply : Reply) : Level σ :=
  { l with line := l.line.close call (if reply.returned then .returned else .raised) }.release

def proceed (t : Tuning) (l : Level σ) (i : Nat) (task : Task) : Verdict → Level σ
  | .settled s =>
    { l with line.report := l.line.report.settle task.code s }.setTask i
      { task with phase := .settled s }
  | .again =>
    { l with line.report := l.line.report.retry }.paused (t.pauseAfter task.failures) i
      { task with failures := task.failures + 1 }
  | .broken fault => l.fail i task fault

/-- What one event leads to: the level goes on, or it ends with a fault. -/
def happen (t : Tuning) (source : Source σ) (l : Level σ) : Event → Except Fault (Level σ)
  | .begin i =>
    match l.tasks[i]? with
    | some task => .ok (l.paused (t.pauseAt i) i task)
    | none => .ok l
  | .ask i => .ok (l.ask i)
  | .enter i =>
    match l.tasks[i]? with
    | some task => .ok (l.enter source i task)
    | none => .ok l
  | .answer i =>
    match l.tasks[i]? with
    | some task =>
      match task.phase with
      | .requesting call reply =>
        .ok ((l.hangUp call reply).proceed t i task (t.judge task.failures reply.outcome))
      | _ => .ok l
    | none => .ok l
  | .report fault => .ok (l.last (.abort fault))
  | .abort fault => .error fault

def pick (order : Order σ) (l : Level σ) : Option (Event × Level σ) :=
  let place := order l % l.ready.length
  l.ready[place]?.map fun event => (event, { l with ready := l.ready.eraseIdx place })

def earliest : List (Binary64 × Event) → Option Binary64
  | [] => none
  | (instant, _) :: rest =>
    match earliest rest with
    | none => some instant
    | some best => some (if best.lt instant then best else instant)

/-- The level at an instant: the timers set for it are due. -/
def moved (l : Level σ) (instant : Binary64) : Level σ :=
  { l with
    line.now := instant
    ready := l.ready ++ (l.timers.filter fun timer => !instant.lt timer.1).map Prod.snd
    timers := l.timers.filter fun timer => instant.lt timer.1 }

def results? (l : Level σ) : Option (List Settled) :=
  l.tasks.mapM fun task =>
    match task.phase with
    | .settled result => some result
    | _ => none

def cancelled (l : Level σ) : Timeline σ := l.line.cancelOpen

/-- Moves the clock to the earliest timer, unless the pass is cancelled before. -/
def wait (cancelAt : Option Binary64) (l : Level σ) : Except (Stop × Timeline σ) (Level σ) :=
  match earliest l.timers with
  | none => .error (.cancelled, l.cancelled)
  | some till =>
    match cancelAt with
    | none => .ok (l.moved till)
    | some instant =>
      if till.lt instant then .ok (l.moved till)
      else .error (.cancelled, { l with line.now := l.line.now.latest instant }.cancelled)

/-- One step: an event that is due happens, or else the clock moves. -/
def step (t : Tuning) (source : Source σ) (cancelAt : Option Binary64) (order : Order σ)
    (l : Level σ) : Except (Stop × Timeline σ) (Level σ) :=
  match l.pick order with
  | some (event, l) =>
    match happen t source l event with
    | .ok l => .ok l
    | .error fault => .error (.fault fault, l.cancelled)
  | none => l.wait cancelAt

def ofCodes (t : Tuning) (codes : List String) (line : Timeline σ) : Level σ where
  line := line
  tasks := codes.map fun code => ⟨code, 0, .idle⟩
  free := t.maxConcurrency
  queue := []
  ready := (List.range codes.length).map .begin
  timers := []

end Level

end AdminConsole.Resolve
