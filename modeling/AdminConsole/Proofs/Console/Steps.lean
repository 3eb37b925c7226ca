import AdminConsole.Proofs.Resolve.Traces
import AdminConsole.Resolve.Load

/-!
Steps of a console. Between two looks at a console anything may have happened: operations of the
session, of the client and of endpoints, time, other answers of the backend, a new process over the
same store, and writes to the store from outside. A run is any number of such steps, in any order.
-/

namespace AdminConsole

open Resolve

namespace Console

inductive Step where
  | begin (a : Authentication)
  | finish
  | authToken
  | authentication
  | isLogged
  | load
  | login (credentials : Credentials) (keep : Bool)
  | logout (forgetting : Bool)
  | autoLogin
  | remember (credentials : Credentials)
  | remembered
  | forget
  | fetch (e : Endpoint) (q : Query)
  | loadTree (t : Tuning) (e : Endpoint) (q : Query) (manner : Manner Console)
  | tick (now : Number)
  | answers (backend : Backend)
  | restart (reopened wrapped wrappedSession : Bool) (loginUrl : String)
  | write (key value : String)
  | erase (key : String)

/-- The session of a new process over the same store, which may have to be opened again. -/
def restarted (reopened wrapped : Bool) (loginUrl : String) (s : Session) : Session :=
  { s.restart with store := if reopened then s.store.reopen else s.store, wrapped, loginUrl }

def perform (c : Console) : Step → Console
  | .begin a => { c with session := (c.session.login a).2 }
  | .finish => { c with session := c.session.logout }
  | .authToken => { c with session := c.session.authToken.2 }
  | .authentication => { c with session := c.session.authentication.2 }
  | .isLogged => { c with session := c.session.isLogged.2 }
  | .load => { c with session := c.session.load.2 }
  | .login credentials keep => (c.login credentials keep).2
  | .logout forgetting => (c.logout forgetting).2
  | .autoLogin => c.autoLogin.2
  | .remember credentials => (c.remember credentials).2
  | .remembered => c.remembered.2
  | .forget => c.forget
  | .fetch e q => (e.fetch q c).2
  | .loadTree t e q manner =>
    (Resolve.load t (endpointSource e q.tenant q.params) (backendDepth c.backend) q.parent c
      manner).2.source
  | .tick now => { c with session.clock := now }
  | .answers backend => { c with backend }
  | .restart reopened wrapped wrappedSession loginUrl =>
    { c with wrapped, session := restarted reopened wrappedSession loginUrl c.session }
  | .write key value => { c with session.store := c.session.store.set key value }
  | .erase key => { c with session.store := c.session.store.remove key }

def run (c : Console) (steps : List Step) : Console := steps.foldl perform c

/-- What every step of a kind keeps, every run of such steps keeps. -/
theorem run_kept {P : Console → Prop} {kind : Step → Prop}
    (hstep : ∀ c step, kind step → P c → P (c.perform step)) {c : Console} {steps : List Step}
    (hsteps : ∀ step ∈ steps, kind step) (hc : P c) : P (c.run steps) := by
  induction steps generalizing c with
  | nil => exact hc
  | cons step rest ih =>
    obtain ⟨hfirst, hrest⟩ := List.forall_mem_cons.mp hsteps
    exact ih hrest (hstep c step hfirst hc)

/-- What every query to an endpoint keeps, every pass over it keeps. -/
theorem loadTree_kept {P : Console → Prop} {e : Endpoint}
    (hfetch : ∀ q c, P c → P (e.fetch q c).2) {c : Console} (hc : P c) (t : Tuning) (q : Query)
    (depth : Nat) (manner : Manner Console) :
    P (Resolve.load t (endpointSource e q.tenant q.params) depth q.parent c manner).2.source :=
  (load_traced t (endpointSource e q.tenant q.params) depth q.parent c manner).answers.kept hc
    fun code c => hfetch { q with parent := code } c

end Console

end AdminConsole
