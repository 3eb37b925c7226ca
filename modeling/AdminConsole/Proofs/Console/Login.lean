import AdminConsole.Proofs.Console.Agreement
import AdminConsole.Proofs.Http.Authorization

/-!
Logging in. The answer to the request for a token alone decides whether a login succeeds. One that
fails leaves the session and the store as they were; one that succeeds holds the authentication that
was answered and writes it, and it writes the credentials if they are to be kept.
-/

namespace AdminConsole

namespace Console

variable {c : Console} {credentials : Credentials} {keep : Bool} {a : Authentication} {cause : Fault}

/-! ### The request for a token -/

/-- What the answer to the request for a token comes to. -/
def tokenFrom (loginUrl : String) : Answer → Except Fault Authentication
  | .response status body => readToken loginUrl (status, body)
  | .breakdown cause => .error (tokenError .transient (.tokenUnreachable tokenPath cause) none)
  | .fault cause => .error (.exchange cause)

/-- The request for a token goes out with every credentials, and it does not end the session, whatever
the answer is. -/
theorem sendAuthorized_basic (path username password : String) (c : Console) :
    c.sendAuthorized path (Header.basic username password) =
      c.transmit path [] (some (Header.basic username password)) := by
  rw [sendAuthorized, Header.unencodable?_basic]
  exact if_pos (Header.isBasic_basic username password)

/-- But for the answer that the backend has given and the request that was sent, the console stays as
it was. -/
theorem requestToken_outcome (credentials : Credentials) (c : Console) :
    (c.requestToken credentials).1 = tokenFrom c.session.loginUrl (c.hears tokenPath none) ∧
      ∃ backend requests, (c.requestToken credentials).2 = { c with backend, requests } := by
  have hmissing : Entries.get? "pcode" ([] : Entries String) = none := rfl
  rw [requestToken, sendAuthorized_basic]
  simp only [transmit, hears, hmissing]
  generalize c.backend.answer _ _ = answered
  obtain ⟨answer, backend⟩ := answered
  cases answer with
  | response status body => exact ⟨rfl, backend, _, rfl⟩
  | breakdown cause => exact ⟨rfl, backend, _, rfl⟩
  | fault cause => exact ⟨rfl, backend, _, rfl⟩

theorem session_requestToken (credentials : Credentials) (c : Console) :
    (c.requestToken credentials).2.session = c.session := by
  obtain ⟨-, backend, requests, hsame⟩ := requestToken_outcome credentials c
  rw [hsame]

/-- Every authentication that is answered can be stored. -/
theorem requestToken_storable (hanswers : ∀ answer ∈ c.backend.answers, answer.Readable)
    (h : (c.requestToken credentials).1 = .ok a) : a.Storable := by
  have hreadable := hears_readable hanswers tokenPath none
  rw [(requestToken_outcome credentials c).1] at h
  generalize c.hears tokenPath none = answer at h hreadable
  cases answer with
  | response status body => exact readToken_storable h hreadable
  | breakdown cause => cases h
  | fault cause => cases h

/-! ### Kept credentials -/

theorem remember_eq (credentials : Credentials) (c : Console) :
    c.remember credentials = (.ok (), { c with
      session.store := c.session.store.set credentialsKey
        (String.ofList (Entry.stored c.wrapped credentials.toJson)) }) := by
  have hdigits : credentials.toJson.withinDigits = true := rfl
  simp only [remember, Entry.encode_eq, if_pos hdigits]

theorem readCredentials_stored (wrapped : Bool) (credentials : Credentials) :
    readCredentials (String.ofList (Entry.stored wrapped credentials.toJson)) =
      .ok (.ok credentials) := by
  have hdecode : Entry.decode (String.ofList (Entry.stored wrapped credentials.toJson)) =
      .ok credentials.toJson := Entry.decode_stored rfl rfl (.inr rfl)
  rw [readCredentials, hdecode]
  rfl

/-- Credentials that are kept are remembered as they were. -/
theorem remembered_remember (hstore : c.session.store ≠ .discarding) (credentials : Credentials) :
    (c.remember credentials).2.remembered = (.ok (some credentials), (c.remember credentials).2) := by
  have hread := readCredentials_stored c.wrapped credentials
  rw [remember_eq]
  generalize String.ofList (Entry.stored c.wrapped credentials.toJson) = entry at hread
  have hne : entry ≠ "" := by
    rintro rfl
    cases hread
  simp only [remembered, Store.get_set_self hstore, if_neg hne, hread]

/-! ### Logging in -/

theorem login_refused (keep : Bool) (h : (c.requestToken credentials).1 = .error cause) :
    c.login credentials keep = (.error cause, (c.requestToken credentials).2) := by
  unfold login
  generalize c.requestToken credentials = asked at h ⊢
  obtain ⟨outcome, c'⟩ := asked
  cases h
  rfl

/-- The console after a session was begun in it. -/
def started (a : Authentication) (c : Console) : Console :=
  { c with session := (c.session.login a).2 }

theorem login_accepted (keep : Bool) (h : (c.requestToken credentials).1 = .ok a)
    (ha : a.toJson.withinDigits = true) :
    c.login credentials keep = (.ok a,
      if keep then (((c.requestToken credentials).2.started a).remember credentials).2
      else (c.requestToken credentials).2.started a) := by
  unfold login
  generalize c.requestToken credentials = asked at h ⊢
  obtain ⟨outcome, c'⟩ := asked
  cases h
  simp only [Session.login_eq ha, started]
  cases keep with
  | true => simp only [remember_eq, if_true]
  | false => simp only [Bool.false_eq_true, if_false]

/-- What a login leaves that succeeds. A store that discards what is written stays as it is. -/
structure LoggedIn (credentials : Credentials) (keep : Bool) (a : Authentication)
    (before after : Console) : Prop where
  held : after.session.held = some a
  stored : before.session.store ≠ .discarding → Session.Holds after.session.store a
  kept : keep = true → before.session.store ≠ .discarding →
    after.remembered = (.ok (some credentials), after)
  untouched : keep = false →
    after.session.store.get credentialsKey = before.session.store.get credentialsKey
  discarded : before.session.store = .discarding → after.session.store = .discarding

theorem loggedIn_started {c' : Console} (hsession : c'.session = c.session) (ha : a.Storable) :
    LoggedIn credentials false a c (c'.started a) := by
  refine ⟨Session.held_login a c'.session, fun hstore => ?_, nofun, fun _ => ?_, fun hstore => ?_⟩
  · rw [← hsession] at hstore
    exact (Session.holds_login ha hstore).1
  · rw [started, Session.login_eq ha.digits, hsession]
    exact Store.get_set_of_ne (by decide) _ _
  · rw [started, Session.login_eq ha.digits, hsession, hstore]
    rfl

/-- Keeping the credentials leaves the session as it was begun. -/
theorem LoggedIn.remember {c' : Console} (h : LoggedIn credentials false a c c')
    (hfaithful : c.session.store ≠ .discarding → c'.session.store ≠ .discarding) :
    LoggedIn credentials true a c (c'.remember credentials).2 := by
  refine ⟨?_, fun hstore => ?_, fun _ hstore => ?_, nofun, fun hstore => ?_⟩
  · rw [remember_eq]
    exact h.held
  · obtain ⟨entry, hget, hread⟩ := h.stored hstore
    rw [remember_eq]
    exact ⟨entry, (Store.get_set_of_ne (by decide) _ _).trans hget, hread⟩
  · exact remembered_remember (hfaithful hstore) credentials
  · rw [remember_eq]
    dsimp only
    rw [h.discarded hstore]
    rfl

/-- A login succeeds exactly if the backend answers with an authentication, which it brings then. If it
fails, the session is the same as before, in memory and in the store. If it succeeds, the session holds
the authentication, the store has it, and the credentials are remembered if they are to be kept and are
untouched if not; but for a store that discards everything, which stays empty. -/
theorem login_outcome (hanswers : ∀ answer ∈ c.backend.answers, answer.Legible)
    (credentials : Credentials) (keep : Bool) :
    (c.login credentials keep).1 = tokenFrom c.session.loginUrl (c.hears tokenPath none) ∧
      ((∃ cause, (c.login credentials keep).1 = .error cause ∧
          (c.login credentials keep).2.session = c.session) ∨
        ∃ a, (c.login credentials keep).1 = .ok a ∧
          LoggedIn credentials keep a c (c.login credentials keep).2) := by
  have hanswer := (requestToken_outcome credentials c).1
  have hsession := session_requestToken credentials c
  cases hasked : (c.requestToken credentials).1 with
  | error cause =>
    rw [login_refused keep hasked]
    dsimp only
    exact ⟨hasked.symm.trans hanswer, .inl ⟨cause, rfl, hsession⟩⟩
  | ok a =>
    have ha := requestToken_storable (fun answer hmem => (hanswers answer hmem).readable) hasked
    have hstarted : LoggedIn credentials false a c ((c.requestToken credentials).2.started a) :=
      loggedIn_started hsession ha
    rw [login_accepted keep hasked ha.digits]
    dsimp only
    refine ⟨hasked.symm.trans hanswer, .inr ⟨a, rfl, ?_⟩⟩
    cases keep with
    | false => exact hstarted
    | true =>
      refine hstarted.remember fun hstore => ?_
      rw [← hsession] at hstore
      exact (Session.holds_login ha hstore).2

/-- The bytes of an authentication, as a backend sends them. -/
def granting : Body := .bytes (Text.Utf8.encode (Visit.member.toJson.write .compact))

theorem detect_granting : Text.Encoding.detect
    (Text.Utf8.encode (Visit.member.toJson.write .compact)) = (.utf8, []) :=
  Text.Encoding.detect_ascii (a := 0x7B) (b := 0x22) (by decide) (by decide) (by decide) _

theorem read_granting : granting.read = .ok Visit.member.toJson :=
  Body.read_encode ⟨by decide, by decide⟩ detect_granting

/-- A console without a session, whose backend grants one. -/
def reception (store : Store) : Console where
  session := ⟨store, none, .whole 1000, true, "/login"⟩
  backend := ⟨[(tokenPath, [.response 200 granting])]⟩
  basePath := []
  wrapped := true
  requests := []

def visitor : Credentials := ⟨"ann", "pässword"⟩

theorem reception_legible (store : Store) :
    ∀ answer ∈ (reception store).backend.answers, answer.Legible := by
  have hgranting : granting.Legible := ⟨trivial, fun _ _ _ _ => Body.holdsText_encode detect_granting⟩
  simpa [reception, Backend.answers, Answer.Legible] using hgranting

theorem reception_answers (store : Store) :
    tokenFrom (reception store).session.loginUrl ((reception store).hears tokenPath none) =
      .ok Visit.member := by
  have hhears : (reception store).hears tokenPath none = .response 200 granting := rfl
  simp only [hhears, tokenFrom, readToken, read_granting]
  rfl

theorem login_outcome_visitor :
    (∀ answer ∈ (reception (.memory [])).backend.answers, answer.Legible) ∧
      ((reception (.memory [])).login visitor true).1 = .ok Visit.member ∧
      LoggedIn visitor true Visit.member (reception (.memory []))
        ((reception (.memory [])).login visitor true).2 := by
  have hanswers := reception_legible (.memory [])
  obtain ⟨hanswer, houtcome⟩ := login_outcome hanswers visitor true
  rw [reception_answers] at hanswer
  rcases houtcome with ⟨cause, hfails, -⟩ | ⟨a, hbrings, hleft⟩
  · rw [hanswer] at hfails
    cases hfails
  · rw [hanswer] at hbrings
    cases hbrings
    exact ⟨hanswers, hanswer, hleft⟩

theorem login_reception (store : Store) :
    ((reception store).login visitor true).1 = .ok Visit.member ∧
      ((reception store).login visitor true).2.session.store =
        (((reception store).session.login Visit.member).2.store.set credentialsKey
          (String.ofList (Entry.stored true visitor.toJson))) := by
  obtain ⟨hanswer, backend, requests, hsame⟩ := requestToken_outcome visitor (reception store)
  rw [reception_answers] at hanswer
  rw [login_accepted true hanswer (by decide), hsame, if_pos rfl, remember_eq]
  exact ⟨rfl, rfl⟩

/-- A login can succeed and change no entry although the credentials are to be kept: over a store that
discards everything, and for the entry of the credentials also where it is there already. -/
theorem login_changes_nothing :
    let kept : Store := .memory [(credentialsKey, String.ofList (Entry.stored true visitor.toJson))]
    ((reception .discarding).login visitor true).1 = .ok Visit.member ∧
      ((reception .discarding).login visitor true).2.session.store.get
        Session.authenticationKey = none ∧
      ((reception .discarding).login visitor true).2.remembered.1 = .ok none ∧
      ((reception kept).login visitor true).1 = .ok Visit.member ∧
      ((reception kept).login visitor true).2.session.store.get credentialsKey =
        (reception kept).session.store.get credentialsKey := by
  intro kept
  obtain ⟨hbrings, hstore⟩ := login_reception .discarding
  obtain ⟨hbrings', hstore'⟩ := login_reception kept
  refine ⟨hbrings, ?_, ?_, hbrings', ?_⟩
  · rw [hstore, Session.login_eq (by decide)]
    rfl
  · rw [remembered, hstore, Session.login_eq (by decide)]
    rfl
  · rw [hstore', Session.login_eq (by decide)]
    exact Store.get_set_self_memory _ _ _

end Console

end AdminConsole
