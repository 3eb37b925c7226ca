import AdminConsole.Resource.Records
import AdminConsole.Tree.View

/-!
Sources of children and the tuning of a pass over them. A source answers one code after another
and may change as it does; each reply says how long the request takes. A query is a request and the
requests that repeat it; what comes of one decides whether there is another.
-/

namespace AdminConsole

/-- A reply: how long it takes, whether the request came back, and the nodes or the fault. -/
structure Reply where
  delay : Number
  returned : Bool
  outcome : Except Fault (List Node)

abbrev Source (σ : Type) := String → σ → Reply × σ

inductive TuningError where
  | attempts
  | concurrency
  deriving DecidableEq, Repr

def TuningError.message : TuningError → String
  | .attempts => "max_attempts must be at least 1"
  | .concurrency => "max_concurrency must be at least 1"

/-- How often a query is tried, how the queries of a level are spread, how long to wait before a
query is tried again, and how many requests may be open at once. -/
structure Tuning where
  maxAttempts : Nat
  stagger : Number
  backoff : Number
  maxConcurrency : Nat
  attempts_pos : 0 < maxAttempts
  concurrency_pos : 0 < maxConcurrency

namespace Tuning

def make (maxAttempts : Int) (stagger backoff : Number) (maxConcurrency : Int) :
    Except TuningError Tuning :=
  if attempts : 0 < maxAttempts.toNat then
    if concurrency : 0 < maxConcurrency.toNat then
      .ok ⟨maxAttempts.toNat, stagger, backoff, maxConcurrency.toNat, attempts, concurrency⟩
    else .error .concurrency
  else .error .attempts

def unpaused (t : Tuning) : Tuning := { t with stagger := .whole 0, backoff := .whole 0 }

/-- The pause before the query at a place of its level; none for the first place. -/
def pauseAt (t : Tuning) (place : Nat) : Except NumberError (Option Number) :=
  if place = 0 || t.stagger.isZero then .ok none
  else some <$> t.stagger.mul (.whole place)

/-- The pause after a number of earlier failures and one more: it doubles each time. -/
def pauseAfter (t : Tuning) (failures : Nat) : Except NumberError (Option Number) := do
  let pause ← t.backoff.mul (.whole (pow2 failures))
  return if pause.isZero then none else some pause

end Tuning

/-- The end of a query: the nodes found, or the error left after the last attempt. -/
abbrev Settled := Except FetchError (List Node)

/-- The nodes of a settled query; none after an error. -/
def Settled.nodes : Settled → List Node
  | .ok nodes => nodes
  | .error _ => []

inductive Verdict where
  | settled (s : Settled)
  | again
  | broken (fault : Fault)

/-- Judges the outcome of a request that had some failures before it. Only a transient error is
worth another request, as long as the attempts last. -/
def Tuning.judge (t : Tuning) (failures : Nat) : Except Fault (List Node) → Verdict
  | .ok nodes => .settled (.ok nodes)
  | .error (.fetch e) =>
    if e.isTransient && failures + 1 < t.maxAttempts then .again else .settled (.error e)
  | .error fault => .broken fault

theorem Tuning.attempts_left {t : Tuning} {failures : Nat} {outcome : Except Fault (List Node)}
    (h : t.judge failures outcome = .again) : failures + 1 < t.maxAttempts := by
  unfold judge at h
  split at h
  · cases h
  · split at h
    · rename_i hleft
      simp only [Bool.and_eq_true, decide_eq_true_eq] at hleft
      exact hleft.2
    · cases h
  · cases h

def Report.retry (r : Report) : Report := { r with retried := r.retried + 1 }

def Report.settle (r : Report) (code : String) : Settled → Report
  | .ok _ => { r with fetched := r.fetched + 1 }
  | .error e => { r with failed := Entries.put code e.message r.failed }

/-- A request that was made: the code asked for and what came of it. -/
structure Asked where
  code : String
  outcome : Except Fault (List Node)

/-- The books of a pass: the state of the source, the requests in the order they were begun, and
the report. -/
structure Ledger (σ : Type) where
  source : σ
  log : List Asked
  report : Report

inductive Stop where
  | fault (cause : Fault)
  | cancelled

/-- Why a pass brings no forest: it was stopped, or it may not go down as many levels as it would
have to. -/
inductive Halt where
  | stopped (stop : Stop)
  | tooDeep

def Halt.stop : Halt → Stop
  | .stopped stop => stop
  | .tooDeep => .cancelled

end AdminConsole
