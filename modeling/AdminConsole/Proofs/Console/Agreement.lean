import AdminConsole.Proofs.Console.Steps
import AdminConsole.Proofs.Http.Bodies
import AdminConsole.Proofs.Session.Agreement
import AdminConsole.Proofs.Session.Ending

/-!
Memory and store in every run of a console. The operations of the client and of endpoints touch the
session only through its own operations, and write nothing else under its key. So whatever happened
before, the entry in the store is the authentication in memory, if there are both and the one in memory
can be written.
-/

namespace AdminConsole

open Resolve

def Answer.Readable : Answer → Prop
  | .response _ body => body.Readable
  | _ => True

def Answer.Legible : Answer → Prop
  | .response _ body => body.Legible
  | _ => True

theorem Answer.Legible.readable {answer : Answer} (h : answer.Legible) : answer.Readable := by
  cases answer with
  | response status body => exact Body.Legible.readable h
  | _ => trivial

namespace Console

/-- A console whose session agrees with its store, and whose backend answers with what can be read. -/
structure Sound (c : Console) : Prop where
  session : c.session.Agrees
  answers : ∀ answer ∈ c.backend.answers, answer.Readable

variable {c : Console}

theorem Sound.withSession (h : c.Sound) {session : Session} (hsession : session.Agrees) :
    Sound { c with session } := ⟨hsession, h.answers⟩

/-! ### Requests -/

/-- What comes of a request: a sound console, and a response that can be read. -/
structure Received (outcome : Except SendFault Response × Console) : Prop where
  sound : outcome.2.Sound
  readable : ∀ status body, outcome.1 = .ok (status, body) → body.Readable

theorem Received.failed (h : c.Sound) (cause : SendFault) : Received (.error cause, c) := ⟨h, nofun⟩

theorem hears_readable (h : ∀ answer ∈ c.backend.answers, answer.Readable) (path : String)
    (parent : Option String) : (c.hears path parent).Readable := by
  rcases c.backend.answer_mem (Path.behind c.basePath path) parent with hmissing | hmem
  · rw [hears, hmissing]
    trivial
  · exact h _ hmem

theorem Sound.hears (h : c.Sound) (path : String) (parent : Option String) :
    (c.hears path parent).Readable := hears_readable h.answers path parent

theorem Sound.transmit (h : c.Sound) (path : String) (params : Entries String)
    (authorization : Option String) : Received (c.transmit path params authorization) := by
  have hreadable := h.hears path (Entries.get? "pcode" params)
  have hsubset := c.backend.answers_answer (Path.behind c.basePath path)
    (Entries.get? "pcode" params)
  simp only [Console.hears] at hreadable
  simp only [Console.transmit]
  generalize c.backend.answer _ _ = answered at hreadable hsubset ⊢
  obtain ⟨answer, backend⟩ := answered
  have hsound : ∀ requests, Sound { c with backend, requests } :=
    fun requests => ⟨h.session, fun given hgiven => h.answers given (hsubset hgiven)⟩
  cases answer with
  | response status body =>
    refine ⟨hsound _, fun _ _ hok => ?_⟩
    cases hok
    exact hreadable
  | breakdown cause => exact .failed (hsound _) _
  | fault cause => exact .failed (hsound _) _

theorem Received.inspect {outcome : Except SendFault Response × Console} (h : Received outcome) :
    Received (inspect outcome) := by
  obtain ⟨_ | ⟨status, body⟩, c⟩ := outcome
  · exact h
  · simp only [Console.inspect]
    split
    · exact .failed (h.sound.withSession (Session.agrees_of_held rfl)) _
    · exact h

theorem Sound.sendAuthorized (h : c.Sound) (path authorization : String) :
    Received (c.sendAuthorized path authorization) := by
  have hsent := h.transmit path [] (some authorization)
  unfold Console.sendAuthorized
  split
  · exact .failed h _
  · dsimp only
    split
    · exact hsent
    · exact hsent.inspect

theorem Sound.send (h : c.Sound) (path : String) (params : Entries String) :
    Received (c.send path params) := by
  have hread := h.session.authentication
  unfold Console.send
  generalize c.session.authentication = found at hread ⊢
  obtain ⟨found, session⟩ := found
  have hsound := h.withSession hread
  match found with
  | .error cause => exact .failed hsound _
  | .ok none => exact (hsound.transmit path params none).inspect
  | .ok (some a) =>
    dsimp only
    split
    · exact .failed hsound _
    · exact (hsound.transmit path params _).inspect

theorem Sound.fetch (h : c.Sound) (e : Endpoint) (q : Query) : (e.fetch q c).2.Sound := by
  rw [(Endpoint.fetch_eq e q c).2]
  exact (h.send e.path (e.paramsOf q)).sound

/-! ### Credentials -/

theorem Sound.forget (h : c.Sound) : c.forget.Sound :=
  h.withSession (h.session.withStore (.inr (Store.get_remove_of_ne (by decide) _)))

theorem Sound.remember (h : c.Sound) (credentials : Credentials) :
    (c.remember credentials).2.Sound := by
  unfold Console.remember
  split
  · exact h
  · exact h.withSession (h.session.withStore (.inr (Store.get_set_of_ne (by decide) _ _)))

theorem Sound.remembered (h : c.Sound) : c.remembered.2.Sound := by
  unfold Console.remembered
  split
  · exact h
  · split
    · exact h
    · split
      · exact h
      · exact h.forget
      · exact h

/-! ### Logging in and out -/

/-- A token that is read comes from a record in the body of a response. -/
theorem readToken_storable {loginUrl : String} {status : Int} {body : Body} {a : Authentication}
    (h : readToken loginUrl (status, body) = .ok a) (hbody : body.Readable) : a.Storable := by
  unfold readToken at h
  dsimp only at h
  split at h
  · cases h
  · split at h
    · cases h
    · split at h
      · cases h
      · split at h
        · cases h
        · rename_i value hread
          split at h
          · cases h
          · rename_i hrecord
            cases h
            exact Authentication.storable_of_readable hrecord (hbody.read hread)

theorem Sound.requestToken (h : c.Sound) (credentials : Credentials) :
    (c.requestToken credentials).2.Sound ∧
      ∀ a, (c.requestToken credentials).1 = .ok a → a.Storable := by
  have hsent := h.sendAuthorized tokenPath
    (Header.basic credentials.username credentials.password)
  unfold Console.requestToken
  generalize c.sendAuthorized tokenPath _ = sent at hsent ⊢
  obtain ⟨outcome, c'⟩ := sent
  match outcome with
  | .error (.breakdown cause) => exact ⟨hsent.sound, nofun⟩
  | .error (.fault cause) => exact ⟨hsent.sound, nofun⟩
  | .ok (status, body) =>
    exact ⟨hsent.sound, fun a hread => readToken_storable hread (hsent.readable status body rfl)⟩

theorem Sound.login (h : c.Sound) (credentials : Credentials) (keep : Bool) :
    (c.login credentials keep).2.Sound := by
  obtain ⟨hsound, hstorable⟩ := h.requestToken credentials
  unfold Console.login
  generalize c.requestToken credentials = asked at hsound hstorable ⊢
  obtain ⟨outcome, c'⟩ := asked
  cases outcome with
  | error cause => exact hsound
  | ok a =>
    have hlogin := hsound.withSession (Session.agrees_login (hstorable a rfl).names c'.session)
    dsimp only
    generalize c'.session.login a = result at hlogin ⊢
    obtain ⟨_ | _, session⟩ := result
    · exact hlogin
    · dsimp only
      cases keep with
      | false => exact hlogin
      | true =>
        have hremember := hlogin.remember credentials
        dsimp only at hremember ⊢
        rw [if_pos rfl]
        generalize Console.remember credentials _ = result at hremember ⊢
        obtain ⟨_ | _, c''⟩ := result
        · exact hremember
        · exact hremember

theorem agrees_endingToken {s : Session} (h : s.Agrees) : (endingToken s).2.Agrees := by
  have hlogged := h.isLogged
  unfold endingToken
  generalize s.isLogged = asked at hlogged ⊢
  obtain ⟨_ | _ | _, s'⟩ := asked
  · exact hlogged
  · exact hlogged
  · have htoken := hlogged.authToken
    dsimp only at htoken ⊢
    generalize s'.authToken = asked at htoken ⊢
    obtain ⟨_ | _, s''⟩ := asked
    · exact htoken
    · exact htoken

theorem Sound.logout (h : c.Sound) (forgetting : Bool) : (c.logout forgetting).2.Sound := by
  have hending := agrees_endingToken h.session
  unfold Console.logout
  generalize endingToken c.session = ending at hending ⊢
  obtain ⟨token, session⟩ := ending
  have hfinished : Sound { c with session := session.logout } := h.withSession (Session.agrees_of_held rfl)
  have hleft : Sound (if forgetting then Console.forget { c with session := session.logout }
      else { c with session := session.logout }) := by
    cases forgetting with
    | true => exact hfinished.forget
    | false => exact hfinished
  match token with
  | .error cause => exact h.withSession hending
  | .ok none => exact hleft
  | .ok (some token) =>
    dsimp only
    rw [revoke_eq]
    exact (hleft.sendAuthorized logoutPath (Header.bearer token)).sound

theorem Sound.autoLogin (h : c.Sound) : c.autoLogin.2.Sound := by
  have hread := h.withSession h.session.authentication
  unfold Console.autoLogin
  generalize c.session.authentication = found at hread ⊢
  obtain ⟨_ | _ | _, session⟩ := found
  · exact hread
  · have hremembered := hread.remembered
    dsimp only at hremembered ⊢
    generalize Console.remembered _ = found at hremembered ⊢
    obtain ⟨_ | _ | credentials, c'⟩ := found
    · exact hremembered
    · exact hremembered
    · have hlogin := Sound.login hremembered credentials false
      dsimp only at hlogin ⊢
      generalize Console.login credentials false c' = result at hlogin ⊢
      obtain ⟨outcome, c''⟩ := result
      match outcome with
      | .ok a => exact hlogin
      | .error cause =>
        cases cause with
        | unauthenticated => exact Sound.forget hlogin
        | _ => exact hlogin
  · exact hread

/-! ### Runs -/

/-- Steps of a run in which only the console itself writes the entry of the session: an authentication
that is begun with has each name once, and what is read as one is Unicode text. -/
def Step.Proper : Step → Prop
  | .begin a => a.details.distinctNames = true
  | .answers backend => ∀ answer ∈ backend.answers, answer.Legible
  | .write key _ => key ≠ Session.authenticationKey
  | _ => True

theorem Sound.perform (h : c.Sound) {step : Step} (hproper : step.Proper) :
    (c.perform step).Sound := by
  cases step with
  | begin a => exact h.withSession (Session.agrees_login hproper c.session)
  | finish => exact h.withSession (Session.agrees_of_held rfl)
  | authToken => exact h.withSession h.session.authToken
  | authentication => exact h.withSession h.session.authentication
  | isLogged => exact h.withSession h.session.isLogged
  | load => exact h.withSession h.session.load
  | login credentials keep => exact h.login credentials keep
  | logout forgetting => exact h.logout forgetting
  | autoLogin => exact h.autoLogin
  | remember credentials => exact h.remember credentials
  | remembered => exact h.remembered
  | forget => exact h.forget
  | fetch e q => exact h.fetch e q
  | loadTree t e q manner => exact loadTree_kept (fun q _ hc => hc.fetch e q) h t q _ manner
  | tick now => exact h.withSession h.session
  | answers backend => exact ⟨h.session, fun answer hmem => (hproper answer hmem).readable⟩
  | restart reopened wrapped wrappedSession loginUrl =>
    exact ⟨Session.agrees_of_held rfl, h.answers⟩
  | write key value =>
    exact h.withSession (h.session.withStore (.inr (Store.get_set_of_ne (Ne.symm hproper) _ _)))
  | erase key =>
    refine h.withSession (h.session.withStore ?_)
    by_cases hkey : Session.authenticationKey = key
    · rw [hkey]
      exact .inl (Store.get_remove_self _ _)
    · exact .inr (Store.get_remove_of_ne hkey _)

/-- Memory and store never disagree: a process that began without a session, over any store, and went
through any steps in which nobody else wrote the entry of the session, holds exactly the
authentication that the entry is read as, if it holds one that can be written and there is an entry.
Only without a token is that no record of an authentication any more. -/
theorem held_agrees {steps : List Step} {a : Authentication} {entry : String}
    (hfresh : c.session.held = none) (hanswers : ∀ answer ∈ c.backend.answers, answer.Legible)
    (hsteps : ∀ step ∈ steps, step.Proper) (hheld : (c.run steps).session.held = some a)
    (hwritable : a.toJson.withinDigits = true)
    (hget : (c.run steps).session.store.get Session.authenticationKey = some entry) :
    Entry.decode entry = .ok a.toJson ∧
      (a.token ≠ "" → Session.readEntry entry = .ok (.ok a)) := by
  have hbegin : c.Sound :=
    ⟨Session.agrees_of_held hfresh, fun answer hmem => (hanswers answer hmem).readable⟩
  have hend : (c.run steps).Sound := run_kept (fun _ _ hproper hc => hc.perform hproper) hsteps hbegin
  have hdecode := hend.session a entry hheld hwritable hget
  refine ⟨hdecode, fun htoken => ?_⟩
  simp only [Session.readEntry, hdecode, Session.ofJson_toJson htoken]
  rfl

/-- A console over a store that outlives the process. -/
def counter : Console where
  session := ⟨.table [] true, none, .whole (1000 : Nat), false, "/login"⟩
  backend := ⟨[]⟩
  basePath := []
  wrapped := true
  requests := []

/-- An authentication is begun with, and recovered by the next process at another time, which writes
entries in the other form. -/
def handover (a : Authentication) (now : Int) : List Step :=
  [.begin a, .tick (.whole now), .restart true true true "/login", .authToken]

/-- The process that recovers the session, before it asks for the token. -/
def successor (a : Authentication) (now : Int) : Session :=
  restarted true true "/login" { (counter.session.login a).2 with clock := .whole now }

theorem run_handover (a : Authentication) (now : Int) :
    (counter.run (handover a now)).session = (successor a now).authToken.2 := rfl

theorem load_successor {a : Authentication} {now : Int} (h : a.Storable)
    (hcurrent : now - a.lastAccess < a.expires) :
    Session.Holds (successor a now).store a ∧ (successor a now).store ≠ .discarding ∧
      (successor a now).load = (.ok (some a), successor a now) := by
  have hstore : (successor a now).store = (counter.session.login a).2.store := by
    rw [successor, Session.login_eq h.digits]
    rfl
  obtain ⟨hholds, hfaithful⟩ := Session.holds_login (s := counter.session) h (by decide)
  rw [← hstore] at hholds hfaithful
  refine ⟨hholds, hfaithful, Session.load_current hholds ⟨.whole (now - a.lastAccess), rfl, ?_⟩⟩
  rw [Number.atLeast]
  simpa using hcurrent

theorem held_agrees_handover :
    counter.session.held = none ∧ (∀ step ∈ handover Visit.member 1050, step.Proper) ∧ ∃ entry,
      (counter.run (handover Visit.member 1050)).session.held =
        some { Visit.member with lastAccess := 1050 } ∧
      (counter.run (handover Visit.member 1050)).session.store.get Session.authenticationKey =
        some entry ∧
      Session.readEntry entry = .ok (.ok { Visit.member with lastAccess := 1050 }) := by
  have hproper : ∀ step ∈ handover Visit.member 1050, step.Proper := by
    have hnames : Visit.member.details.distinctNames = true := by decide
    simpa [handover, Step.Proper] using hnames
  have hstorable : Visit.member.Storable := ⟨by decide, by decide, by decide⟩
  have hlater : Authentication.Storable { Visit.member with lastAccess := 1050 } :=
    hstorable.access (by decide)
  obtain ⟨-, hfaithful, hload⟩ := @load_successor Visit.member 1050 hstorable (by decide)
  have hrun : (counter.run (handover Visit.member 1050)).session =
      ((successor Visit.member 1050).login { Visit.member with lastAccess := 1050 }).2 := by
    rw [run_handover, Session.authToken_some rfl hload rfl hlater]
  obtain ⟨⟨entry, hget, -⟩, -⟩ := Session.holds_login hlater hfaithful
  rw [← hrun] at hget
  have hheld : (counter.run (handover Visit.member 1050)).session.held =
      some { Visit.member with lastAccess := 1050 } := by rw [hrun, Session.held_login]
  have hanswers : ∀ answer ∈ counter.backend.answers, answer.Legible := by
    simp [counter, Backend.answers]
  have hagrees := held_agrees rfl hanswers hproper hheld hlater.digits hget
  exact ⟨rfl, hproper, entry, hheld, hget, hagrees.2 (by decide)⟩

/-! ### What cannot be written -/

/-- Memory and store have different authentications. -/
def Disagrees (c : Console) : Prop :=
  ∃ a b entry, c.session.held = some a ∧
    c.session.store.get Session.authenticationKey = some entry ∧
    Session.readEntry entry = .ok (.ok b) ∧ b ≠ a

/-- An authentication that cannot be written is held over one that could. -/
theorem disagrees_of_overlong {s : Session} {a b : Authentication}
    (hrun : c.session = { s with held := some b }) (hholds : Session.Holds s.store a)
    (ha : a.toJson.withinDigits = true) (hb : ¬ b.toJson.withinDigits = true) : c.Disagrees := by
  obtain ⟨entry, hget, hread⟩ := hholds
  refine ⟨b, a, entry, ?_, ?_, hread, ?_⟩
  · rw [hrun]
  · rw [hrun]
    exact hget
  · rintro rfl
    exact hb ha

/-- Another authentication is begun with in the place of the first one. -/
def replacement (a b : Authentication) : List Step := [.begin a, .begin b]

theorem disagrees_replacement {a b : Authentication} (ha : a.Storable)
    (hb : ¬ b.toJson.withinDigits = true) : (counter.run (replacement a b)).Disagrees := by
  have hrun : (counter.run (replacement a b)).session =
      { (counter.session.login a).2 with held := some b } := by
    simp only [replacement, run, List.foldl_cons, List.foldl_nil, perform, Session.login_overlong hb]
  exact disagrees_of_overlong hrun (Session.holds_login ha (by decide)).1 ha.digits hb

theorem disagrees_handover {a : Authentication} {now : Int} (ha : a.Storable)
    (hcurrent : now - a.lastAccess < a.expires)
    (hnow : ¬ (Json.number (.whole now)).withinDigits = true) :
    (counter.run (handover a now)).Disagrees := by
  have hlater : ¬ (Authentication.toJson { a with lastAccess := now }).withinDigits = true :=
    fun hdigits => hnow (Authentication.toJson_withinDigits.mp hdigits).2.1
  have hheld : (successor a now).held = none := rfl
  have hclock : (successor a now).clock.truncate = .ok now := rfl
  obtain ⟨hholds, -, hload⟩ := load_successor ha hcurrent
  have hrun : (counter.run (handover a now)).session =
      { successor a now with held := some { a with lastAccess := now } } := by
    rw [run_handover]
    simp only [Session.authToken, Session.authentication, hheld, hload, hclock,
      Session.login_overlong hlater]
  exact disagrees_of_overlong hrun hholds ha.digits hlater

/-- The first number that cannot be written. -/
def unwritable : Int := (pow10 digitLimit : Nat)

/-- An authentication whose last access is the last number that can be written. -/
def latest : Authentication := ⟨"t", 10, unwritable - 1, .null⟩

theorem unwritable_overlong : ¬ (Json.number (.whole unwritable)).withinDigits = true := by
  rw [Json.withinDigits_iff, unwritable, Int.natAbs_natCast]
  exact Nat.lt_irrefl _

theorem storable_latest : latest.Storable := by
  have hlast : (Json.number (.whole (unwritable - 1))).withinDigits = true := by
    have hpos : 0 < pow10 digitLimit := pow10_pos digitLimit
    rw [Json.withinDigits_iff, unwritable]
    generalize pow10 digitLimit = limit at hpos ⊢
    omega
  have hexpires : (Json.number (.whole 10)).withinDigits = true := by decide
  exact ⟨by simp [latest], rfl, Authentication.toJson_withinDigits.mpr ⟨hexpires, hlast, rfl⟩⟩

/-- An authentication whose lifetime cannot be written takes the place of another one in memory alone;
and so does one that is recovered when the clock shows a time that cannot be written. -/
theorem held_disagrees_overlong :
    let endless : Authentication := { Visit.member with expires := unwritable }
    counter.session.held = none ∧
      ((∀ step ∈ replacement Visit.member endless, step.Proper) ∧
        (counter.run (replacement Visit.member endless)).Disagrees) ∧
      (∀ step ∈ handover latest unwritable, step.Proper) ∧
        (counter.run (handover latest unwritable)).Disagrees := by
  intro endless
  have hnames : Visit.member.details.distinctNames = true := by decide
  have hsame : endless.details.distinctNames = true := hnames
  have hendless : ¬ endless.toJson.withinDigits = true :=
    fun hdigits => unwritable_overlong (Authentication.toJson_withinDigits.mp hdigits).1
  have hcurrent : unwritable - latest.lastAccess < latest.expires := by
    simp only [latest]
    omega
  refine ⟨rfl, ⟨?_, ?_⟩, ?_, ?_⟩
  · simpa [replacement, Step.Proper] using And.intro hnames hsame
  · exact disagrees_replacement ⟨by decide, by decide, by decide⟩ hendless
  · have hnone : latest.details.distinctNames = true := rfl
    simpa [handover, Step.Proper] using hnone
  · exact disagrees_handover storable_latest hcurrent unwritable_overlong

end Console

end AdminConsole
