import AdminConsole.Resolve.Source

/-!
Scripted sources. A script lists the reactions to each code; they are used in order and the last
one stays, and a code without reactions has no records. What a request function raises on its own
account is a transient failure; faults of the console pass unchanged.
-/

namespace AdminConsole

inductive Failure where
  | fetch (severity : Severity) (message : String) (status : Option Int)
  | unauthenticated (message loginUrl : Option String)
  | sessionExpired (message loginUrl : Option String)
  | malformed (message : String)
  | general (message : String)
  | crash (cause : Breakdown)

namespace Failure

def refusal : Option String → Refusal
  | none => .noSession
  | some message => .reported message

def toFault (code : String) : Failure → Fault
  | .fetch severity message status =>
    .fetch ⟨severity, .reported message, some code, status⟩
  | .unauthenticated message loginUrl =>
    .unauthenticated (refusal message) (loginUrl.getD Fault.defaultLoginUrl)
  | .sessionExpired message loginUrl =>
    .sessionExpired (refusal message) (loginUrl.getD Fault.defaultLoginUrl)
  | .malformed message => .malformed (.reported message)
  | .general message => .general message
  | .crash cause => .fetch ⟨.transient, .crashed code cause, some code, none⟩

end Failure

/-- One reaction of a request function and the seconds it takes. -/
structure Reaction where
  delay : Number
  result : Except Failure Records

abbrev Script := Entries (List Reaction)

namespace Script

def next (code : String) (s : Script) : Option Reaction × Script :=
  match Entries.get? code s with
  | some (first :: second :: rest) => (some first, Entries.put code (second :: rest) s)
  | some [last] => (some last, s)
  | _ => (none, s)

def replyOf (code : String) : Option Reaction → Reply
  | none => ⟨.whole 0, true, .ok []⟩
  | some ⟨delay, .ok records⟩ =>
    ⟨delay, true, (records.nodes (some code)).mapError .fetch⟩
  | some ⟨delay, .error failure⟩ => ⟨delay, false, .error (failure.toFault code)⟩

def source : Source Script := fun code s =>
  let (reaction, s) := next code s
  (replyOf code reaction, s)

def reactionNodes (r : Reaction) : List Node :=
  match r.result with
  | .error _ => []
  | .ok records => (records.nodes none).toOption.getD []

/-- A bound on the codes that a script can bring, hence on the levels of its forest. -/
def depth (s : Script) : Nat :=
  (s.flatMap fun entry => entry.2.flatMap reactionNodes).length + 1

end Script

end AdminConsole
