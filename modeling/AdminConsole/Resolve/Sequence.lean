import AdminConsole.Resolve.Levels

/-!
Settling queries one after another. A request that failed for the moment is repeated after a pause
until the attempts are used up; any other fetch error settles the query, and any other fault ends
the pass.
-/

namespace AdminConsole.Resolve

/-- The state of a pass: the source, the requests made, the pauses made, and the report. -/
structure Pass (σ : Type) where
  source : σ
  log : List Asked
  pauses : List Number
  report : Report

namespace Pass

variable {σ : Type}

def start (source : σ) : Pass σ := ⟨source, [], [], .empty⟩

def ledger (p : Pass σ) : Ledger σ := ⟨p.source, p.log, p.report⟩

def asked (p : Pass σ) : List String := p.log.map Asked.code

def pause (p : Pass σ) : Option Number → Pass σ
  | none => p
  | some seconds => { p with pauses := p.pauses ++ [seconds] }

def ask (source : Source σ) (code : String) (p : Pass σ) :
    Except Fault (List Node) × Pass σ :=
  let (reply, state) := source code p.source
  (reply.outcome, { p with source := state, log := p.log ++ [⟨code, reply.outcome⟩] })

def retry (p : Pass σ) : Pass σ := { p with report := p.report.retry }

def settle (code : String) (s : Settled) (p : Pass σ) : Pass σ :=
  { p with report := p.report.settle code s }

end Pass

variable {σ : Type}

def attempt (t : Tuning) (source : Source σ) (code : String) (failures : Nat) (p : Pass σ) :
    Except Stop Settled × Pass σ :=
  let (outcome, p) := p.ask source code
  match _again : t.judge failures outcome with
  | .settled s => (.ok s, p.settle code s)
  | .again =>
    match t.pauseAfter failures with
    | .error cause => (.error (.fault (.number cause)), p.retry)
    | .ok seconds => attempt t source code (failures + 1) (p.retry.pause seconds)
  | .broken fault => (.error (.fault fault), p)
termination_by t.maxAttempts - failures
decreasing_by
  have := Tuning.attempts_left _again
  omega

def settle (t : Tuning) (source : Source σ) (place : Nat) (code : String) (p : Pass σ) :
    Except Stop Settled × Pass σ :=
  match t.pauseAt place with
  | .error cause => (.error (.fault (.number cause)), p)
  | .ok seconds => attempt t source code 0 (p.pause seconds)

def settleFrom (t : Tuning) (source : Source σ) :
    Nat → List String → Pass σ → Except Stop (List Settled) × Pass σ
  | _, [], p => (.ok [], p)
  | place, code :: codes, p =>
    match settle t source place code p with
    | (.error stop, p) => (.error stop, p)
    | (.ok s, p) =>
      match settleFrom t source (place + 1) codes p with
      | (.error stop, p) => (.error stop, p)
      | (.ok rest, p) => (.ok (s :: rest), p)

def inSequence (t : Tuning) (source : Source σ) : Gather (Pass σ) :=
  fun codes p => settleFrom t source 0 codes p

end AdminConsole.Resolve
