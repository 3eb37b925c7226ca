import AdminConsole.Proofs.Console.Logout
import AdminConsole.Proofs.Entry.Halves

/-!
Getting back in. A session that is there is recovered without a request. Only without one the stored
credentials are needed, and then they are sent once. They are forgotten where they cannot be read and
where the backend refuses them, and in no other case.
-/

namespace AdminConsole

namespace Console

variable {c c' : Console} {credentials : Credentials} {a : Authentication} {cause : Fault}
  {stored : Option String}

/-! ### Stored credentials -/

/-- The entry of the credentials. -/
def kept (c : Console) : Option String := c.session.store.get credentialsKey

/-- There is no entry, or one without a character. -/
def Blank (stored : Option String) : Prop := stored.getD "" = ""

/-- The entry is read as these credentials. -/
def Remembers (stored : Option String) (credentials : Credentials) : Prop :=
  ∃ entry, stored = some entry ∧ readCredentials entry = .ok (.ok credentials)

/-- The entry has characters, but it is not read as credentials. -/
def Illegible (stored : Option String) : Prop :=
  ∃ entry malformed, stored = some entry ∧ entry ≠ "" ∧
    readCredentials entry = .ok (.error malformed)

/-- An entry is of one kind only. -/
theorem Blank.not_illegible (h : Blank stored) : ¬Illegible stored := by
  rintro ⟨entry, malformed, rfl, hne, -⟩
  exact hne h

theorem Blank.not_remembers (h : Blank stored) : ¬Remembers stored credentials := by
  rintro ⟨entry, rfl, hread⟩
  rw [Blank, Option.getD_some] at h
  subst h
  cases hread

theorem Remembers.not_illegible (h : Remembers stored credentials) : ¬Illegible stored := by
  obtain ⟨entry, rfl, hread⟩ := h
  rintro ⟨other, malformed, hother, -, hmalformed⟩
  cases hother
  rw [hread] at hmalformed
  cases hmalformed

/-- What remembering may do: one case for each thing that it may find. -/
inductive Recalls (c : Console) : Except Fault (Option Credentials) × Console → Prop where
  | blank (h : Blank c.kept) : Recalls c (.ok none, c)
  | overlong {entry : String} {cause : NumberError} (h : c.kept = some entry)
    (hread : readCredentials entry = .error cause) : Recalls c (.error (.number cause), c)
  | illegible (h : Illegible c.kept) : Recalls c (.ok none, c.forget)
  | remembers {credentials : Credentials} (h : Remembers c.kept credentials) :
    Recalls c (.ok (some credentials), c)

theorem recalls (c : Console) : Recalls c c.remembered := by
  cases hkept : c.session.store.get credentialsKey with
  | none =>
    have hblank : Blank c.kept := by
      rw [kept, hkept]
      rfl
    rw [remembered, hkept]
    exact .blank hblank
  | some entry =>
    by_cases hempty : entry = ""
    · subst hempty
      have hblank : Blank c.kept := by
        rw [kept, hkept]
        rfl
      rw [remembered, hkept]
      exact .blank hblank
    · simp only [remembered, hkept, if_neg hempty]
      cases hread : readCredentials entry with
      | error cause => exact .overlong hkept hread
      | ok result =>
        cases result with
        | error malformed => exact .illegible ⟨entry, malformed, hkept, hempty, hread⟩
        | ok credentials => exact .remembers ⟨entry, hkept, hread⟩

/-! ### The request for a token -/

/-- The request for a token with credentials. -/
def tokenRequest (credentials : Credentials) (c : Console) : Request :=
  ⟨"GET", Path.behind c.basePath tokenPath, [],
    some (Header.basic credentials.username credentials.password), "XMLHttpRequest"⟩

theorem requests_requestToken (credentials : Credentials) (c : Console) :
    (c.requestToken credentials).2.requests = c.requests ++ [c.tokenRequest credentials] := by
  have hsent := requests_transmit tokenPath []
    (some (Header.basic credentials.username credentials.password)) c
  rw [requestToken, sendAuthorized_basic]
  generalize c.transmit _ _ _ = outcome at hsent ⊢
  obtain ⟨(breakdown | fault) | response, c'⟩ := outcome
  · exact hsent
  · exact hsent
  · exact hsent

/-- The backend refuses the credentials. -/
def Denies (answer : Answer) : Prop :=
  ∃ status body, answer = .response status body ∧ (status = 401 ∨ status = 403)

theorem tokenFrom_unauthenticated {loginUrl : String} {answer : Answer} :
    (∃ refusal url, tokenFrom loginUrl answer = .error (.unauthenticated refusal url)) ↔
      Denies answer := by
  constructor
  · rintro ⟨refusal, url, h⟩
    cases answer with
    | response status body =>
      simp only [tokenFrom, readToken] at h
      split at h
      · exact ⟨status, body, rfl, by assumption⟩
      · repeat' split at h
        all_goals cases h
    | breakdown cause => cases h
    | fault cause => cases h
  · rintro ⟨status, body, rfl, hstatus⟩
    exact ⟨.wrongCredentials, loginUrl, if_pos hstatus⟩

theorem requests_started (a : Authentication) (c : Console) :
    (c.started a).requests = c.requests := rfl

/-- A login for which the credentials are not to be kept leaves their entry alone. -/
theorem login_once (hanswers : ∀ answer ∈ c.backend.answers, answer.Readable)
    (credentials : Credentials) :
    (c.login credentials false).1 = tokenFrom c.session.loginUrl (c.hears tokenPath none) ∧
      (c.login credentials false).2.requests = c.requests ++ [c.tokenRequest credentials] ∧
      (c.login credentials false).2.kept = c.kept ∧
      ∀ a, (c.login credentials false).1 = .ok a →
        (c.login credentials false).2.session.held = some a := by
  have hanswer := (requestToken_outcome credentials c).1
  have hsession := session_requestToken credentials c
  have hrequests := requests_requestToken credentials c
  cases hasked : (c.requestToken credentials).1 with
  | error cause =>
    rw [login_refused false hasked]
    dsimp only
    refine ⟨hasked.symm.trans hanswer, hrequests, ?_, nofun⟩
    rw [kept, hsession]
    rfl
  | ok a =>
    have ha := requestToken_storable hanswers hasked
    have hleft : LoggedIn credentials false a c ((c.requestToken credentials).2.started a) :=
      loggedIn_started hsession ha
    rw [login_accepted false hasked ha.digits, if_neg Bool.false_ne_true]
    dsimp only
    refine ⟨hasked.symm.trans hanswer, (requests_started a _).trans hrequests,
      hleft.untouched rfl, ?_⟩
    intro b hb
    cases hb
    exact hleft.held

/-! ### Getting back in -/

/-- Nobody is logged in, in memory or in the store, and the store could be read. -/
def Out (c : Console) : Prop := c.session.isLogged.1 = .ok false

/-- What getting back in may do: one case for each thing that it may find and hear. -/
inductive Resumes (c : Console) : Except Fault (Option Authentication) × Console → Prop where
  | unread {cause : NumberError} {c' : Console} (h : c.session.authentication.1 = .error cause)
    (hrequests : c'.requests = c.requests) : Resumes c (.error (.number cause), c')
  | recovered {a : Authentication} {c' : Console} (h : c.session.Brings a)
    (hheld : c'.session.held = some a) (hrequests : c'.requests = c.requests) :
    Resumes c (.ok (some a), c')
  | unknown {c' : Console} (h : c.Out) (hkept : Blank c.kept ∨ Illegible c.kept)
    (hrequests : c'.requests = c.requests) : Resumes c (.ok none, c')
  | overlong {entry : String} {cause : NumberError} {c' : Console} (h : c.Out)
    (hkept : c.kept = some entry) (hread : readCredentials entry = .error cause)
    (hrequests : c'.requests = c.requests) : Resumes c (.error (.number cause), c')
  | admitted {credentials : Credentials} {a : Authentication} {c' : Console} (h : c.Out)
    (hkept : Remembers c.kept credentials)
    (hanswer : tokenFrom c.session.loginUrl (c.hears tokenPath none) = .ok a)
    (hheld : c'.session.held = some a)
    (hrequests : c'.requests = c.requests ++ [c.tokenRequest credentials]) :
    Resumes c (.ok (some a), c')
  | denied {credentials : Credentials} {c' : Console} (h : c.Out)
    (hkept : Remembers c.kept credentials) (hanswer : Denies (c.hears tokenPath none))
    (hrequests : c'.requests = c.requests ++ [c.tokenRequest credentials]) :
    Resumes c (.ok none, c')
  | failed {credentials : Credentials} {cause : Fault} {c' : Console} (h : c.Out)
    (hkept : Remembers c.kept credentials) (hdenied : ¬Denies (c.hears tokenPath none))
    (hanswer : tokenFrom c.session.loginUrl (c.hears tokenPath none) = .error cause)
    (hrequests : c'.requests = c.requests ++ [c.tokenRequest credentials]) :
    Resumes c (.error cause, c')

/-- The credentials are lost: they were needed, and they cannot be read or were refused. -/
def Loses (c : Console) : Prop :=
  c.Out ∧ (Illegible c.kept ∨
    (∃ credentials, Remembers c.kept credentials) ∧ Denies (c.hears tokenPath none))

/-- Credentials are read from an entry in one way only. -/
theorem Remembers.unique {other : Credentials} (h : Remembers stored credentials)
    (hother : Remembers stored other) : other = credentials := by
  obtain ⟨entry, rfl, hread⟩ := h
  obtain ⟨again, hagain, hother⟩ := hother
  cases hagain
  rw [hread] at hother
  cases hother
  rfl

theorem Out.not_brings (h : c.Out) : ¬c.session.Brings a := by
  intro hbrings
  obtain ⟨session, hbrought⟩ := Session.authentication_brought hbrings
  rw [Out, Session.isLogged_false_iff, hbrought] at h
  cases h

section

variable {outcome : Except Fault (Option Authentication) × Console}

/-- Where there is a session to be recovered, it is recovered, and nothing is sent. -/
theorem Resumes.brings (h : Resumes c outcome) (hbrings : c.session.Brings a) :
    outcome.1 = .ok (some a) ∧ outcome.2.requests = c.requests := by
  obtain ⟨session, hbrought⟩ := Session.authentication_brought hbrings
  cases h with
  | unread hunread =>
    rw [hbrought] at hunread
    cases hunread
  | recovered hother hheld hrequests =>
    obtain ⟨again, hagain⟩ := Session.authentication_brought hother
    rw [hbrought] at hagain
    cases hagain
    exact ⟨rfl, hrequests⟩
  | unknown hout | overlong hout | admitted hout | denied hout | failed hout =>
    exact absurd hbrings hout.not_brings

/-- Where nobody is logged in and there are credentials, they are sent once. -/
theorem Resumes.remembers (h : Resumes c outcome) (hout : c.Out)
    (hkept : Remembers c.kept credentials) :
    outcome.2.requests = c.requests ++ [c.tokenRequest credentials] := by
  cases h with
  | unread hunread =>
    rw [Out, Session.isLogged_false_iff, hunread] at hout
    cases hout
  | recovered hbrings => exact absurd hbrings hout.not_brings
  | unknown _ hnone =>
    rcases hnone with hblank | hillegible
    · exact absurd hkept hblank.not_remembers
    · exact absurd hillegible hkept.not_illegible
  | overlong _ hentry hread =>
    obtain ⟨entry, hsame, hok⟩ := hkept
    rw [hentry] at hsame
    cases hsame
    rw [hread] at hok
    cases hok
  | admitted _ hother _ _ hrequests => rw [hrequests, hkept.unique hother]
  | denied _ hother _ hrequests => rw [hrequests, hkept.unique hother]
  | failed _ hother _ _ hrequests => rw [hrequests, hkept.unique hother]

end

/-- What a login comes to that nobody asked for: credentials that are refused are forgotten. -/
def settled : Except Fault Authentication × Console → Except Fault (Option Authentication) × Console
  | (.ok a, c) => (.ok (some a), c)
  | (.error (.unauthenticated _ _), c) => (.ok none, c.forget)
  | (.error cause, c) => (.error cause, c)

theorem settled_error (h : ∀ refusal url, cause ≠ .unauthenticated refusal url) (c : Console) :
    settled (.error cause, c) = (.error cause, c) := by
  cases cause with
  | unauthenticated refusal url => exact absurd rfl (h refusal url)
  | _ => rfl

/-- Reading the session leaves the entry of the credentials alone. -/
theorem kept_authentication {session : Session}
    {found : Except NumberError (Option Authentication)}
    (h : c.session.authentication = (found, session)) : kept { c with session } = c.kept := by
  have hkept := Session.keepsOthers_authentication c.session
  rw [h] at hkept
  exact hkept credentialsKey (by decide)

section

variable {session : Session} (h : c.session.authentication = (.ok none, session))
include h

theorem autoLogin_blank (hremembered : remembered { c with session } = (.ok none, c')) :
    c.autoLogin = (.ok none, c') := by
  simp only [autoLogin, h, hremembered]

theorem autoLogin_overlong (hremembered : remembered { c with session } = (.error cause, c')) :
    c.autoLogin = (.error cause, c') := by
  simp only [autoLogin, h, hremembered]

theorem autoLogin_remembered
    (hremembered : remembered { c with session } = (.ok (some credentials), c')) :
    c.autoLogin = settled (c'.login credentials false) := by
  simp only [autoLogin, h, hremembered]
  generalize c'.login credentials false = outcome
  rfl

theorem out_of_authentication : c.Out := by
  rw [Out, Session.isLogged_false_iff, h]

/-- With credentials that are remembered, the answer to the request for a token decides. -/
theorem resumes_remembered (hanswers : ∀ answer ∈ c.backend.answers, answer.Readable)
    (hkept : Remembers c.kept credentials) :
    Resumes c (settled (login credentials false { c with session })) ∧
      (Denies (c.hears tokenPath none) →
        (settled (login credentials false { c with session })).2.kept = none) ∧
      (¬Denies (c.hears tokenPath none) →
        (settled (login credentials false { c with session })).2.kept = c.kept) := by
  have hout := out_of_authentication h
  have hsame := kept_authentication h
  have hurl : session.loginUrl = c.session.loginUrl := by
    have hread := Session.loginUrl_authentication c.session
    rwa [h] at hread
  obtain ⟨hanswer, hrequests, huntouched, hheld⟩ :=
    login_once (c := { c with session }) hanswers credentials
  replace hanswer : (login credentials false { c with session }).1 =
      tokenFrom c.session.loginUrl (c.hears tokenPath none) := by
    rw [← hurl]
    exact hanswer
  replace hrequests : (login credentials false { c with session }).2.requests =
      c.requests ++ [c.tokenRequest credentials] := hrequests
  rw [hsame] at huntouched
  have hdenies : (∃ refusal url, tokenFrom c.session.loginUrl (c.hears tokenPath none) =
      .error (.unauthenticated refusal url)) ↔ Denies (c.hears tokenPath none) :=
    tokenFrom_unauthenticated
  generalize login credentials false { c with session } = outcome
    at hanswer hrequests huntouched hheld ⊢
  obtain ⟨cause | a, c'⟩ := outcome
  · dsimp only at hanswer hrequests huntouched
    by_cases hdenied : Denies (c.hears tokenPath none)
    · obtain ⟨refusal, url, hrefused⟩ := hdenies.mpr hdenied
      rw [hrefused] at hanswer
      cases hanswer
      exact ⟨.denied hout hkept hdenied hrequests, fun _ => Store.get_remove_self _ _,
        fun hallowed => absurd hdenied hallowed⟩
    · have hcause : ∀ refusal url, cause ≠ .unauthenticated refusal url := by
        rintro refusal url rfl
        exact hdenied (hdenies.mp ⟨refusal, url, hanswer.symm⟩)
      rw [settled_error hcause]
      exact ⟨.failed hout hkept hdenied hanswer.symm hrequests,
        fun hrefused => absurd hrefused hdenied, fun _ => huntouched⟩
  · dsimp only at hanswer hrequests huntouched
    have hallowed : ¬Denies (c.hears tokenPath none) := by
      intro hdenied
      obtain ⟨refusal, url, hrefused⟩ := hdenies.mpr hdenied
      rw [hrefused] at hanswer
      cases hanswer
    exact ⟨.admitted hout hkept hanswer.symm (hheld a rfl) hrequests,
      fun hdenied => absurd hdenied hallowed, fun _ => huntouched⟩

/-- Without a session, what remembering finds decides. -/
theorem resumes_out (hanswers : ∀ answer ∈ c.backend.answers, answer.Readable) :
    Resumes c c.autoLogin ∧ (c.Loses → c.autoLogin.2.kept = none) ∧
      (¬c.Loses → c.autoLogin.2.kept = c.kept) := by
  have hout := out_of_authentication h
  have hsame := kept_authentication h
  have hrecalls := recalls { c with session }
  generalize hremembered : remembered { c with session } = recalled at hrecalls
  cases hrecalls with
  | blank hblank =>
    rw [hsame] at hblank
    have hkeeps : ¬c.Loses := by
      rintro ⟨-, hillegible | ⟨⟨credentials, hremembers⟩, -⟩⟩
      · exact hblank.not_illegible hillegible
      · exact hblank.not_remembers hremembers
    rw [autoLogin_blank h hremembered]
    exact ⟨.unknown hout (.inl hblank) rfl, fun hlost => absurd hlost hkeeps, fun _ => hsame⟩
  | @overlong entry cause hkept hread =>
    rw [hsame] at hkept
    have hkeeps : ¬c.Loses := by
      rintro ⟨-, ⟨other, malformed, hother, -, hmalformed⟩ | ⟨⟨credentials, other, hother, hok⟩, -⟩⟩
      · rw [hkept] at hother
        cases hother
        rw [hread] at hmalformed
        cases hmalformed
      · rw [hkept] at hother
        cases hother
        rw [hread] at hok
        cases hok
    rw [autoLogin_overlong h hremembered]
    exact ⟨.overlong hout hkept hread rfl, fun hlost => absurd hlost hkeeps, fun _ => hsame⟩
  | illegible hillegible =>
    rw [hsame] at hillegible
    rw [autoLogin_blank h hremembered]
    exact ⟨.unknown hout (.inr hillegible) rfl, fun _ => Store.get_remove_self _ _,
      fun hkeeps => absurd ⟨hout, .inl hillegible⟩ hkeeps⟩
  | @remembers credentials hremembers =>
    rw [hsame] at hremembers
    have hlost : c.Loses ↔ Denies (c.hears tokenPath none) := by
      constructor
      · rintro ⟨-, hillegible | ⟨-, hdenied⟩⟩
        · exact absurd hillegible hremembers.not_illegible
        · exact hdenied
      · exact fun hdenied => ⟨hout, .inr ⟨⟨credentials, hremembers⟩, hdenied⟩⟩
    rw [autoLogin_remembered h hremembered, hlost]
    exact resumes_remembered h hanswers hremembers

end

/-- What getting back in does, and that the entry of the credentials is lost exactly where they were
needed and cannot be read, or were refused. -/
theorem resumes_autoLogin (hanswers : ∀ answer ∈ c.backend.answers, answer.Readable) :
    Resumes c c.autoLogin ∧ (c.Loses → c.autoLogin.2.kept = none) ∧
      (¬c.Loses → c.autoLogin.2.kept = c.kept) := by
  have hrecovers := c.session.recovers
  generalize hfound : c.session.authentication = found at hrecovers
  have hsame := kept_authentication hfound
  have hin : c.session.authentication.1 ≠ .ok none → ¬c.Loses := by
    rintro hsome ⟨hout, -⟩
    exact hsome (Session.isLogged_false_iff.mp hout)
  rw [hfound] at hin
  cases hrecovers with
  | failed cause session =>
    have hfails : c.autoLogin = (.error (.number cause), { c with session }) := by
      rw [autoLogin, hfound]
    rw [hfails]
    have hunread : c.session.authentication.1 = .error cause := by rw [hfound]
    have hkeeps : ¬c.Loses := by
      apply hin
      intro h
      cases h
    exact ⟨.unread hunread rfl, fun hlost => absurd hlost hkeeps, fun _ => hsame⟩
  | found a session hheld =>
    have hbrings : c.autoLogin = (.ok (some a), { c with session }) := by
      rw [autoLogin, hfound]
    rw [hbrings]
    have hbrought := Session.brings_of_authentication (by rw [hfound])
    have hkeeps : ¬c.Loses := by
      apply hin
      intro h
      cases h
    exact ⟨.recovered hbrought hheld rfl, fun hlost => absurd hlost hkeeps, fun _ => hsame⟩
  | nothing session => exact resumes_out hfound hanswers

/-- The backend answers with what can be read, and credentials that are remembered are Unicode text,
since others cannot be sent. -/
structure Resumable (c : Console) : Prop where
  answers : ∀ answer ∈ c.backend.answers, answer.Readable
  text : ∀ entry credentials, c.kept = some entry →
    readCredentials entry = .ok (.ok credentials) → Entry.HoldsText entry

/-- Getting back in recovers the session without a request; only without one it needs the credentials,
which are sent once if they are remembered. Their entry is lost where they were needed and cannot be
read, or were refused; in every other case it stays as it is. -/
theorem autoLogin_outcome (h : c.Resumable) :
    Resumes c c.autoLogin ∧
      (∀ a, c.session.Brings a →
        c.autoLogin.1 = .ok (some a) ∧ c.autoLogin.2.requests = c.requests) ∧
      (∀ credentials, c.Out → Remembers c.kept credentials →
        c.autoLogin.2.requests = c.requests ++ [c.tokenRequest credentials]) ∧
      (c.Loses → c.autoLogin.2.kept = none) ∧ (¬c.Loses → c.autoLogin.2.kept = c.kept) := by
  obtain ⟨hresumes, hlost, hkept⟩ := resumes_autoLogin h.answers
  refine ⟨hresumes, ?_, ?_, hlost, hkept⟩
  · intro a hbrings
    exact hresumes.brings hbrings
  · intro credentials hout hremembers
    exact hresumes.remembers hout hremembers

/-- A console without a session, with an entry of credentials, whose backend refuses every one. -/
def closed (entry : String) : Console where
  session := ⟨.memory [(credentialsKey, entry)], none, .whole 1000, true, "/login"⟩
  backend := ⟨[(tokenPath, [.response 403 (.bytes [])])]⟩
  basePath := []
  wrapped := true
  requests := []

theorem autoLogin_outcome_closed :
    let c := closed (String.ofList (Entry.stored true visitor.toJson))
    c.Resumable ∧ Remembers c.kept visitor ∧ c.Loses ∧
      c.autoLogin.2.requests = [c.tokenRequest visitor] ∧ c.autoLogin.2.kept = none := by
  intro c
  have hanswers : ∀ answer ∈ c.backend.answers, answer.Readable := by
    intro answer hanswer
    obtain rfl : answer = .response 403 (.bytes []) := List.mem_singleton.mp hanswer
    trivial
  have hresumable : c.Resumable := by
    refine ⟨hanswers, fun entry _ hkept _ => ?_⟩
    cases hkept
    exact Entry.holdsText_stored true visitor
  have hremembers : Remembers c.kept visitor := ⟨_, rfl, readCredentials_stored true visitor⟩
  have hdenied : Denies (c.hears tokenPath none) := ⟨403, .bytes [], rfl, .inr rfl⟩
  have hloses : c.Loses := ⟨rfl, .inr ⟨⟨visitor, hremembers⟩, hdenied⟩⟩
  obtain ⟨-, -, hsent, hlost, -⟩ := autoLogin_outcome hresumable
  exact ⟨hresumable, hremembers, hloses, hsent visitor hloses.1 hremembers, hlost hloses⟩

/-- An entry without a character is unreadable, is needed, and stays. And a stored session whose window
is open, but which cannot be written again, is not recovered. -/
theorem autoLogin_keeps_empty :
    (Entry.decode "" = .error (.malformed .empty) ∧ (closed "").Out ∧
      (closed "").autoLogin.1 = .ok none ∧ (closed "").autoLogin.2.kept = some "") ∧
    let c := { closed "" with session := Session.left (.real (.infinite true)) }
    c.session.load.1 = .ok (some Visit.member) ∧
      c.autoLogin.1 = .error (.number .infinityHasNoWholePart) := by
  refine ⟨⟨rfl, rfl, rfl, rfl⟩, ?_⟩
  intro c
  have hload := Session.load_left Session.current_timeless
  have hfails : c.autoLogin = (.error (.number .infinityHasNoWholePart), c) := by
    rw [autoLogin, Session.authentication_timeless]
  exact ⟨congrArg Prod.fst hload, congrArg Prod.fst hfails⟩

end Console

end AdminConsole
