import AdminConsole.Proofs.Console.Steps
import AdminConsole.Proofs.Session.Ending
import AdminConsole.Proofs.Session.Window

/-!
After a full logout. A console that holds no session and no credentials, in memory or in the store,
has nothing to send and nothing to come back to: whatever is done with it short of a login, it stays
so, and no request that it sends says who the user is.
-/

namespace AdminConsole

open Resolve

namespace Session.Ended

variable {s : Session}

theorem load (h : s.Ended) : s.load = (.ok none, s) := load_removed h.stored

theorem authToken (h : s.Ended) :
    s.authToken = (.error (.unauthenticated .noSession s.loginUrl), s) :=
  authToken_none h.held h.load

theorem isLogged (h : s.Ended) : s.isLogged = (.ok false, s) := isLogged_eq h.held h.load

end Session.Ended

namespace Console

/-- There is neither a session nor are there credentials to begin one with. -/
structure Off (c : Console) : Prop where
  ended : c.session.Ended
  forgotten : c.session.store.get credentialsKey = none

/-- From one console to another nobody was logged in, and no request said who the user is. -/
structure Silent (c c' : Console) : Prop where
  off : c'.Off
  requests : ∃ sent, c'.requests = c.requests ++ sent ∧ ∀ r ∈ sent, r.authorization = none

variable {c c' c'' : Console}

theorem Silent.trans (h : c.Silent c') (h' : c'.Silent c'') : c.Silent c'' := by
  obtain ⟨sent, hsent, hnone⟩ := h.requests
  obtain ⟨more, hmore, hnone'⟩ := h'.requests
  refine ⟨h'.off, sent ++ more, by rw [hmore, hsent, List.append_assoc], fun r hr => ?_⟩
  exact (List.mem_append.mp hr).elim (hnone r) (hnone' r)

theorem Off.unsent (h : c'.Off) (hsame : c'.requests = c.requests) : c.Silent c' :=
  ⟨h, [], by rw [hsame, List.append_nil], by simp⟩

theorem Off.refl (h : c.Off) : c.Silent c := h.unsent rfl

/-! ### Operations of a console that is off -/

theorem off_finish (h : c.session.store.get credentialsKey = none) :
    Off { c with session := c.session.logout } := by
  refine ⟨Session.ended_logout _, ?_⟩
  rw [Session.logout, Store.get_remove_of_ne (by decide)]
  exact h

theorem Off.erase (h : c.Off) (key : String) :
    Off { c with session.store := c.session.store.remove key } := by
  have hstays : ∀ other, c.session.store.get other = none →
      (c.session.store.remove key).get other = none := by
    intro other hnone
    by_cases hother : other = key
    · rw [hother]
      exact Store.get_remove_self _ _
    · rwa [Store.get_remove_of_ne hother]
  exact ⟨⟨h.ended.held, hstays _ h.ended.stored⟩, hstays _ h.forgotten⟩

theorem Off.restart (h : c.Off) (reopened wrapped wrappedSession : Bool) (loginUrl : String) :
    (c.perform (.restart reopened wrapped wrappedSession loginUrl)).Off := by
  have hstays : ∀ key, c.session.store.get key = none →
      (restarted reopened wrappedSession loginUrl c.session).store.get key = none := by
    intro key hnone
    cases reopened with
    | true => exact (c.session.store.get_reopen key).elim id fun hsame => hsame.trans hnone
    | false => exact hnone
  exact ⟨⟨rfl, hstays _ h.ended.stored⟩, hstays _ h.forgotten⟩

theorem Off.remembered (h : c.Off) : c.remembered = (.ok none, c) := by
  rw [Console.remembered, h.forgotten]

/-- Without a session and credentials nothing is sent to log in. -/
theorem Off.autoLogin (h : c.Off) : c.autoLogin = (.ok none, c) := by
  rw [Console.autoLogin, h.ended.authentication]
  dsimp only
  rw [h.remembered]

theorem Off.logout (h : c.Off) (forgetting : Bool) : c.Silent (c.logout forgetting).2 := by
  have hfinished : Off { c with session := c.session.logout } := off_finish h.forgotten
  rw [Console.logout, endingToken, h.ended.isLogged]
  cases forgetting with
  | true => exact (hfinished.erase credentialsKey).unsent rfl
  | false => exact hfinished.unsent rfl

/-- A query goes out without authorization; its answer can only end the session again. -/
theorem Off.fetch (h : c.Off) (e : Endpoint) (q : Query) : c.Silent (e.fetch q c).2 := by
  have hread := h.ended.authentication
  have hfound : c.session.authentication.1 = .ok none := by rw [hread]
  have hsent := exchanged_send e.path (e.paramsOf q) hfound nofun
  obtain ⟨r, hr, hnone⟩ := hsent.requests
  have hsession := hsent.session
  rw [(Endpoint.fetch_eq e q c).2]
  refine ⟨?_, [r], hr, fun r' hr' => ?_⟩
  · generalize (c.send e.path (e.paramsOf q)).2 = c' at hsession
    dsimp only at hsession
    rw [hread] at hsession
    have hfinished : Off { c with session := c.session.logout } := off_finish h.forgotten
    rcases hsession with hsession | hsession
    · exact ⟨hsession ▸ h.ended, hsession ▸ h.forgotten⟩
    · exact ⟨hsession ▸ hfinished.ended, hsession ▸ hfinished.forgotten⟩
  · rw [List.mem_singleton.mp hr', hnone]
    rfl

theorem Off.loadTree (h : c.Off) (t : Tuning) (e : Endpoint) (q : Query)
    (manner : Manner Console) : c.Silent (c.perform (.loadTree t e q manner)) :=
  loadTree_kept (fun q _ hsilent => hsilent.trans (hsilent.off.fetch e q)) h.refl t q _ manner

/-! ### Runs -/

/-- Steps that neither log in nor write to the store. -/
def Step.Quiet : Step → Prop
  | .begin _ | .login _ _ | .remember _ | .write _ _ => False
  | _ => True

theorem Off.perform (h : c.Off) {step : Step} (hquiet : step.Quiet) :
    c.Silent (c.perform step) := by
  cases step with
  | begin | login | remember | write => exact hquiet.elim
  | finish => exact (off_finish h.forgotten).unsent rfl
  | authToken =>
    simp only [Console.perform, h.ended.authToken]
    exact h.refl
  | authentication =>
    simp only [Console.perform, h.ended.authentication]
    exact h.refl
  | isLogged =>
    simp only [Console.perform, h.ended.isLogged]
    exact h.refl
  | load =>
    simp only [Console.perform, h.ended.load]
    exact h.refl
  | logout forgetting => exact h.logout forgetting
  | autoLogin =>
    simp only [Console.perform, h.autoLogin]
    exact h.refl
  | remembered =>
    simp only [Console.perform, h.remembered]
    exact h.refl
  | forget => exact (h.erase credentialsKey).unsent rfl
  | fetch e q => exact h.fetch e q
  | loadTree t e q manner => exact h.loadTree t e q manner
  | tick now =>
    have hticked : Off { c with session.clock := now } := ⟨⟨h.ended.held, h.ended.stored⟩, h.forgotten⟩
    exact hticked.unsent rfl
  | answers backend =>
    have hoff : Off { c with backend } := ⟨h.ended, h.forgotten⟩
    exact hoff.unsent rfl
  | restart reopened wrapped wrappedSession loginUrl =>
    exact (h.restart reopened wrapped wrappedSession loginUrl).unsent rfl
  | erase key => exact (h.erase key).unsent rfl

theorem off_forget (h : c.session.Ended) : c.forget.Off := by
  refine ⟨⟨h.held, ?_⟩, Store.get_remove_self _ _⟩
  rw [Console.forget, Store.get_remove_of_ne (by decide)]
  exact h.stored

/-- A full logout that returns has ended the session and forgotten the credentials before the backend
was told. -/
theorem off_logout (h : (c.logout true).1 = .ok ()) : (c.logout true).2.Off := by
  unfold Console.logout at h ⊢
  generalize endingToken c.session = ending at h ⊢
  obtain ⟨token, session⟩ := ending
  cases token with
  | error cause => cases h
  | ok token =>
    have hoff : (forget { c with session := session.logout }).Off :=
      off_forget (Session.ended_logout session)
    cases token with
    | none => exact hoff
    | some token =>
      -- Whatever the backend answers to this last request, there is nothing left to end.
      dsimp only
      rw [if_pos rfl, revoke_eq]
      generalize forget { c with session := session.logout } = c' at hoff ⊢
      have hfinished : Off { c' with session := c'.session.logout } := off_finish hoff.forgotten
      rcases c'.session_sendAuthorized logoutPath (Header.bearer token) with hsession | hsession
      · exact ⟨hsession ▸ hoff.ended, hsession ▸ hoff.forgotten⟩
      · exact ⟨hsession ▸ hfinished.ended, hsession ▸ hfinished.forgotten⟩

/-- After a full logout no credential leaves the process: whatever is done short of a login and of
writing to the store, no request says who the user is, the store has neither a session nor credentials,
a request for the token is refused, and an attempt to log in by itself sends nothing. -/
theorem logout_silent {steps : List Step} (h : (c.logout true).1 = .ok ())
    (hsteps : ∀ step ∈ steps, step.Quiet) :
    let left := (c.logout true).2
    let c' := left.run steps
    (∃ sent, c'.requests = left.requests ++ sent ∧ ∀ r ∈ sent, r.authorization = none) ∧
      c'.session.authToken =
        (.error (.unauthenticated .noSession c'.session.loginUrl), c'.session) ∧
      c'.autoLogin = (.ok none, c') ∧
      c'.session.store.get Session.authenticationKey = none ∧
      c'.session.store.get credentialsKey = none := by
  have hsilent : (c.logout true).2.Silent ((c.logout true).2.run steps) :=
    run_kept (fun _ _ hquiet hsofar => hsofar.trans (hsofar.off.perform hquiet)) hsteps
      (off_logout h).refl
  exact ⟨hsilent.requests, hsilent.off.ended.authToken, hsilent.off.autoLogin,
    hsilent.off.ended.stored, hsilent.off.forgotten⟩

/-- A console with a session in memory and in a store that outlives the process, and with credentials;
its backend refuses to end sessions. -/
def frontDesk : Console where
  session := ⟨.table [⟨Session.authenticationKey, "a"⟩, ⟨credentialsKey, "c"⟩] true,
    some Visit.member, .whole 1000, true, "/login"⟩
  backend := ⟨[(logoutPath, [.response 401 (.bytes [])])]⟩
  basePath := []
  wrapped := true
  requests := []

def evening : List Step :=
  [.autoLogin, .restart true true true "/login", .loadTree Endpoint.thrice Endpoint.menus
    ⟨"0", "0", []⟩ .inSequence, .authToken]

theorem logout_silent_evening :
    (frontDesk.logout true).1 = .ok () ∧ (∀ step ∈ evening, step.Quiet) ∧
      let left := (frontDesk.logout true).2
      left.requests.map Request.authorization = [some "Bearer t"] ∧
      (∃ sent, (left.run evening).requests = left.requests ++ sent ∧
        ∀ r ∈ sent, r.authorization = none) ∧
      (left.run evening).autoLogin = (.ok none, left.run evening) := by
  have hlogout : (frontDesk.logout true).1 = .ok () := rfl
  have hquiet : ∀ step ∈ evening, step.Quiet := by simp [evening, Step.Quiet]
  obtain ⟨hrequests, -, hauto, -⟩ := logout_silent hlogout hquiet
  exact ⟨hlogout, hquiet, by decide +kernel, hrequests, hauto⟩

end Console

end AdminConsole
