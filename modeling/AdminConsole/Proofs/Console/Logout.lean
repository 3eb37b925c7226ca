import AdminConsole.Proofs.Console.Login
import AdminConsole.Proofs.Console.Silence
import AdminConsole.Proofs.Session.Checking

/-!
Logging out. A session that is only stored is recovered first, since its token is needed once more;
then the session is ended here, and last the backend is told. Whatever the backend answers is ignored,
but a token that no header can hold, and a clock that no recovered session can be written with, are not.
-/

namespace AdminConsole

namespace Console

variable {c : Console} {forgetting : Bool} {token : String} {a : Authentication}

/-! ### Telling the backend -/

/-- The request that tells the backend that a token is no longer used. -/
def farewell (token : String) (c : Console) : Request :=
  ⟨"GET", Path.behind c.basePath logoutPath, [], some (Header.bearer token), "XMLHttpRequest"⟩

theorem revoke_unfit {cause : Header.Unencodable}
    (h : Header.unencodable? (Header.bearer token) = some cause) :
    c.revoke token = (.error (.header cause), c) := by
  rw [revoke, sendAuthorized, h]

/-- A token that fits a header is sent, and no answer is a failure. -/
theorem revoke_sent (h : Header.unencodable? (Header.bearer token) = none) :
    (c.revoke token).1 = .ok () ∧ (c.revoke token).2.requests = c.requests ++ [c.farewell token] ∧
      ((c.revoke token).2.session = c.session ∨
        (c.revoke token).2.session = c.session.logout) := by
  have hsent : c.sendAuthorized logoutPath (Header.bearer token) =
      inspect (c.transmit logoutPath [] (some (Header.bearer token))) := by
    rw [sendAuthorized, h]
    exact if_neg (by rw [Header.isBasic_bearer]; exact Bool.false_ne_true)
  have hexchanged := exchanged_transmit logoutPath [] (some (Header.bearer token)) c
  refine ⟨?_, ?_, ?_⟩
  · have houtcome := hexchanged.outcome
    rw [revoke, hsent]
    generalize inspect _ = sent at houtcome ⊢
    obtain ⟨outcome, c'⟩ := sent
    dsimp only at houtcome
    rw [houtcome]
    generalize c.hears logoutPath _ = answer
    cases answer with
    | response status body =>
      rw [received]
      cases endsSession status <;> rfl
    | breakdown cause => rfl
    | fault cause => rfl
  · rw [revoke_eq, hsent, requests_inspect, requests_transmit]
    rfl
  · rw [revoke_eq, hsent]
    exact hexchanged.session

/-! ### Logging out -/

/-- What is left when the session was ended here: no session, and credentials only if they are not to
be forgotten. -/
structure Left (forgetting : Bool) (before after : Console) : Prop where
  ended : after.session.Ended
  credentials : after.session.store.get credentialsKey =
    if forgetting then none else before.session.store.get credentialsKey

/-- The console after its session was ended here. -/
def finished (forgetting : Bool) (session : Session) (c : Console) : Console :=
  if forgetting then forget { c with session := session.logout }
  else { c with session := session.logout }

theorem requests_finished (forgetting : Bool) (session : Session) (c : Console) :
    (c.finished forgetting session).requests = c.requests := by
  cases forgetting <;> rfl

theorem farewell_finished (forgetting : Bool) (session : Session) (token : String) (c : Console) :
    (c.finished forgetting session).farewell token = c.farewell token := by
  cases forgetting <;> rfl

theorem left_finished {session : Session} (h : Session.KeepsOthers c.session session) :
    Left forgetting c (c.finished forgetting session) := by
  have hended := Session.ended_logout session
  cases forgetting with
  | true => exact ⟨(off_forget hended).ended, Store.get_remove_self _ _⟩
  | false =>
    refine ⟨hended, ?_⟩
    exact (Store.get_remove_of_ne (by decide) _).trans (h credentialsKey (by decide))

/-- Whatever the backend answers, there is nothing left to end. -/
theorem Left.of_session {c' c'' : Console} (h : Left forgetting c c')
    (hsession : c''.session = c'.session ∨ c''.session = c'.session.logout) :
    Left forgetting c c'' := by
  rcases hsession with hsame | hends
  · exact ⟨hsame ▸ h.ended, hsame ▸ h.credentials⟩
  · refine ⟨hends ▸ Session.ended_logout _, ?_⟩
    rw [hends]
    exact (Store.get_remove_of_ne (by decide) _).trans h.credentials

theorem logout_none {session : Session} (h : endingToken c.session = (.ok none, session)) :
    c.logout forgetting = (.ok (), c.finished forgetting session) := by
  rw [logout, h]
  rfl

theorem logout_some {session : Session} (h : endingToken c.session = (.ok (some token), session)) :
    c.logout forgetting = (c.finished forgetting session).revoke token := by
  rw [logout, h]
  rfl

/-- What a logout may do: one case for each thing that it may find. -/
inductive LogsOut (forgetting : Bool) (c : Console) : Except Fault Unit × Console → Prop where
  | unknown {cause : NumberError} (h : c.session.isLogged.1 = .error cause) :
    LogsOut forgetting c (.error (.number cause), c)
  | absent {c' : Console} (h : c.session.isLogged.1 = .ok false) (hleft : Left forgetting c c')
    (hrequests : c'.requests = c.requests) : LogsOut forgetting c (.ok (), c')
  | told {a : Authentication} {c' : Console} (h : c.session.isLogged.1 = .ok true)
    (hhas : c.session.Has a) (hrecoverable : c.session.Recoverable)
    (hfits : Header.unencodable? (Header.bearer a.token) = none) (hleft : Left forgetting c c')
    (hrequests : c'.requests = c.requests ++ [c.farewell a.token]) :
    LogsOut forgetting c (.ok (), c')
  | unfit {a : Authentication} {c' : Console} {cause : Header.Unencodable}
    (h : c.session.isLogged.1 = .ok true) (hhas : c.session.Has a)
    (hrecoverable : c.session.Recoverable)
    (hcause : Header.unencodable? (Header.bearer a.token) = some cause)
    (hleft : Left forgetting c c') (hrequests : c'.requests = c.requests) :
    LogsOut forgetting c (.error (.header cause), c')
  | unrecoverable {a : Authentication} {c' : Console} {cause : NumberError}
    (h : c.session.isLogged.1 = .ok true) (hhas : c.session.Has a)
    (hunrecoverable : ¬c.session.Recoverable) (hrequests : c'.requests = c.requests) :
    LogsOut forgetting c (.error (.number cause), c')

/-- A logout ends the session, forgets the credentials if it is to, and sends the token of the session
once, whatever the answer is. It raises only if the session cannot be read, if it is only stored and
cannot be recovered, or, when everything is done here, if no header can hold its token. -/
theorem logout_outcome (forgetting : Bool) (c : Console) :
    LogsOut forgetting c (c.logout forgetting) := by
  rcases c.session.isLogged_cases with ⟨cause, hlogged⟩ | ⟨s', hlogged, hkept⟩ | ⟨a, hlogged, hhas⟩
  · have hlogout : c.logout forgetting = (.error (.number cause), c) := by
      rw [logout, endingToken, hlogged]
    rw [hlogout]
    exact .unknown (congrArg Prod.fst hlogged)
  · have hending : endingToken c.session = (.ok none, s') := by rw [endingToken, hlogged]
    rw [logout_none hending]
    exact .absent (congrArg Prod.fst hlogged) (left_finished hkept) (requests_finished _ _ c)
  · have htrue : c.session.isLogged.1 = .ok true := congrArg Prod.fst hlogged
    by_cases hrecoverable : c.session.Recoverable
    · obtain ⟨session, htoken, hkept⟩ := Session.authToken_has hhas hrecoverable
      have hending : endingToken c.session = (.ok (some a.token), session) := by
        rw [endingToken, hlogged]
        simp only [htoken]
      have hleft : Left forgetting c (c.finished forgetting session) := left_finished hkept
      have hrequests := requests_finished forgetting session c
      have hfarewell := farewell_finished forgetting session a.token c
      rw [logout_some hending]
      generalize c.finished forgetting session = left at hleft hrequests hfarewell ⊢
      cases hfits : Header.unencodable? (Header.bearer a.token) with
      | none =>
        obtain ⟨hok, hsent, hsession⟩ := left.revoke_sent hfits
        rw [hrequests, hfarewell] at hsent
        rw [show left.revoke a.token = (.ok (), (left.revoke a.token).2) from Prod.ext hok rfl]
        exact .told htrue hhas hrecoverable hfits (hleft.of_session hsession) hsent
      | some cause =>
        rw [revoke_unfit hfits]
        exact .unfit htrue hhas hrecoverable hfits hleft hrequests
    · obtain ⟨cause, session, htoken⟩ := Session.authToken_unrecoverable hhas hrecoverable
      have hlogout : c.logout forgetting = (.error (.number cause), { c with session }) := by
        rw [logout, endingToken, hlogged]
        simp only [htoken]
      rw [hlogout]
      exact .unrecoverable htrue hhas hrecoverable rfl

/-- A console whose session has a token that no header can hold. -/
def foreign : Console where
  session := ⟨.memory [], some ⟨"é", 3600, 1700000000, .null⟩, .whole 1700000000, true, "/login"⟩
  backend := ⟨[(logoutPath, [.response 200 (.bytes [])])]⟩
  basePath := []
  wrapped := true
  requests := []

theorem logout_foreign :
    foreign.session.isLogged.1 = .ok true ∧
      (foreign.logout true).1 = .error (.header ⟨7, ['é']⟩) ∧
      (foreign.logout true).2.requests = [] := ⟨rfl, rfl, rfl⟩

end Console

end AdminConsole
