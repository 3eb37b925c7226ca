import AdminConsole.Proofs.Resolve.Completion
import AdminConsole.Proofs.Resolve.Wire
import AdminConsole.Proofs.Session.Recovery

/-!
What becomes of a query to an endpoint. A request that is not blocked by the session gets an answer,
and every answer but a failure of the exchange itself is nodes, an error that concerns this query
alone, or the end of the session. In a pass over an endpoint only the end of the session and what is
not classified can discard the rest of a forest.
-/

namespace AdminConsole

open Resolve

theorem Query.parent_toParams (q : Query) : Entries.get? "pcode" q.toParams = some q.parent := by
  unfold Query.toParams
  rw [Entries.get?_put_of_ne (by decide), Entries.get?_put_self]

theorem Endpoint.parent_paramsOf (e : Endpoint) (q : Query) :
    Entries.get? "pcode" (e.paramsOf q) = some q.parent :=
  Query.parent_toParams _

namespace Console

/-! ### Requests that are sent -/

/-- A request of the console goes out: its session can be read, and the token fits a header. -/
def Sends (c : Console) : Prop :=
  ∃ found, c.session.authentication.1 = .ok found ∧
    ∀ a, found = some a → Header.unencodable? (Header.bearer a.token) = none

/-- Why no request of the console goes out. -/
inductive Blocked (c : Console) : Fault → Prop where
  | number {cause : NumberError} (h : c.session.authentication.1 = .error cause) :
    Blocked c (.number cause)
  | header {a : Authentication} {cause : Header.Unencodable}
    (h : c.session.authentication.1 = .ok (some a))
    (hcause : Header.unencodable? (Header.bearer a.token) = some cause) : Blocked c (.header cause)

/-- The answer that the backend has for a request with a path and a parent code. -/
def hears (path : String) (parent : Option String) (c : Console) : Answer :=
  (c.backend.answer (Path.behind c.basePath path) parent).1

/-- The answer for a path and a parent code ends the session. -/
def Refuses (path : String) (parent : Option String) (c : Console) : Prop :=
  ∃ status body, c.hears path parent = .response status body ∧ (status = 401 ∨ status = 407)

/-- The authorization of a request, given the session that was read for it. -/
def bearing (found : Option Authentication) : Option String :=
  found.map fun a => Header.bearer a.token

/-- An answer as the sender receives it. -/
def received (loginUrl : String) : Answer → Except SendFault Response
  | .response status body =>
    if endsSession status then .error (.fault (.unauthenticated .noSession loginUrl))
    else .ok (status, body)
  | .breakdown cause => .error (.breakdown cause)
  | .fault cause => .error (.fault (.exchange cause))

variable {c : Console} {fault : Fault}

theorem sends_or_blocked (c : Console) : c.Sends ∨ ∃ fault, c.Blocked fault := by
  cases hfound : c.session.authentication.1 with
  | error cause => exact .inr ⟨_, .number hfound⟩
  | ok found =>
    cases found with
    | none => exact .inl ⟨none, hfound, nofun⟩
    | some a =>
      cases hcause : Header.unencodable? (Header.bearer a.token) with
      | none =>
        refine .inl ⟨some a, hfound, fun other hother => ?_⟩
        cases hother
        exact hcause
      | some cause => exact .inr ⟨_, .header hfound hcause⟩

theorem Blocked.not_sends (h : c.Blocked fault) : ¬ c.Sends := by
  rintro ⟨found, hfound, hfits⟩
  cases h with
  | number herror =>
    rw [hfound] at herror
    cases herror
  | header ha hcause =>
    rw [hfound] at ha
    rw [hfits _ (Except.ok.inj ha)] at hcause
    cases hcause

theorem refuses_iff {path : String} {parent : Option String} : c.Refuses path parent ↔
    ∃ status body, c.hears path parent = .response status body ∧ endsSession status = true := by
  simp only [Refuses, endsSession, Bool.or_eq_true, decide_eq_true_eq]

/-- What a request leaves behind: the backend has answered it, it stands among the requests sent, and
the session has ended if the answer says so. -/
structure Exchanged (path : String) (params : Entries String) (authorization : Option String)
    (c : Console) (sent : Except SendFault Response × Console) : Prop where
  outcome : sent.1 = received c.session.loginUrl (c.hears path (Entries.get? "pcode" params))
  backend : sent.2.backend =
    (c.backend.answer (Path.behind c.basePath path) (Entries.get? "pcode" params)).2
  requests : ∃ r, sent.2.requests = c.requests ++ [r] ∧ r.authorization = authorization
  refused : c.Refuses path (Entries.get? "pcode" params) → sent.2.session = c.session.logout
  kept : ¬ c.Refuses path (Entries.get? "pcode" params) → sent.2.session = c.session

theorem Exchanged.session {path : String} {params : Entries String} {authorization : Option String}
    {sent : Except SendFault Response × Console} (h : Exchanged path params authorization c sent) :
    sent.2.session = c.session ∨ sent.2.session = c.session.logout := by
  by_cases hrefuses : c.Refuses path (Entries.get? "pcode" params)
  · exact .inr (h.refused hrefuses)
  · exact .inl (h.kept hrefuses)

theorem exchanged_transmit (path : String) (params : Entries String)
    (authorization : Option String) (c : Console) :
    Exchanged path params authorization c (inspect (c.transmit path params authorization)) := by
  generalize hanswered : c.backend.answer (Path.behind c.basePath path)
    (Entries.get? "pcode" params) = answered
  obtain ⟨answer, backend⟩ := answered
  have hhears : c.hears path (Entries.get? "pcode" params) = answer := congrArg Prod.fst hanswered
  have hbackend := (congrArg Prod.snd hanswered).symm
  have hrefuses : c.Refuses path (Entries.get? "pcode" params) ↔
      ∃ status body, answer = .response status body ∧ endsSession status = true := by
    rw [refuses_iff, hhears]
  simp only [transmit, hanswered]
  cases answer with
  | response status body =>
    cases hends : endsSession status with
    | true =>
      simp only [inspect, hends, if_true]
      exact ⟨by simp only [hhears, received, hends, if_true], hbackend, ⟨_, rfl, rfl⟩,
        fun _ => rfl, absurd (hrefuses.mpr ⟨status, body, rfl, hends⟩)⟩
    | false =>
      simp only [inspect, hends, Bool.false_eq_true, if_false]
      refine ⟨by simp only [hhears, received, hends, Bool.false_eq_true, if_false], hbackend,
        ⟨_, rfl, rfl⟩, fun h => ?_, fun _ => rfl⟩
      obtain ⟨_, _, ⟨⟩, htrue⟩ := hrefuses.mp h
      rw [hends] at htrue
      cases htrue
  | breakdown cause =>
    refine ⟨by rw [hhears]; rfl, hbackend, ⟨_, rfl, rfl⟩, fun h => ?_, fun _ => rfl⟩
    obtain ⟨_, _, ⟨⟩, _⟩ := hrefuses.mp h
  | fault cause =>
    refine ⟨by rw [hhears]; rfl, hbackend, ⟨_, rfl, rfl⟩, fun h => ?_, fun _ => rfl⟩
    obtain ⟨_, _, ⟨⟩, _⟩ := hrefuses.mp h

theorem requests_transmit (path : String) (params : Entries String) (authorization : Option String)
    (c : Console) : (c.transmit path params authorization).2.requests = c.requests ++
      [⟨"GET", Path.behind c.basePath path, params, authorization, "XMLHttpRequest"⟩] := by
  simp only [transmit]
  generalize c.backend.answer _ _ = answered
  obtain ⟨answer, backend⟩ := answered
  cases answer <;> rfl

theorem requests_inspect (outcome : Except SendFault Response × Console) :
    (inspect outcome).2.requests = outcome.2.requests := by
  obtain ⟨_ | ⟨status, body⟩, c⟩ := outcome
  · rfl
  · simp only [inspect]
    split <;> rfl

theorem send_blocked (path : String) (params : Entries String) (h : c.Blocked fault) :
    c.send path params =
      (.error (.fault fault), { c with session := c.session.authentication.2 }) := by
  cases h with
  | @number cause herror =>
    have hfound : c.session.authentication = (.error cause, c.session.authentication.2) :=
      Prod.ext herror rfl
    unfold send
    rw [hfound]
  | @header a cause ha hcause =>
    have hfound : c.session.authentication = (.ok (some a), c.session.authentication.2) :=
      Prod.ext ha rfl
    unfold send
    rw [hfound]
    simp only [hcause]

/-- A request that can be sent is sent with the token of the session that is read for it. -/
theorem send_eq (path : String) (params : Entries String) {found : Option Authentication}
    (hfound : c.session.authentication.1 = .ok found)
    (hfits : ∀ a, found = some a → Header.unencodable? (Header.bearer a.token) = none) :
    c.send path params = inspect
      ({ c with session := c.session.authentication.2 }.transmit path params (bearing found)) := by
  have hread : c.session.authentication = (.ok found, c.session.authentication.2) :=
    Prod.ext hfound rfl
  unfold send
  rw [hread]
  cases found with
  | none => rfl
  | some a =>
    simp only [hfits a rfl]
    rfl

theorem exchanged_send (path : String) (params : Entries String) {found : Option Authentication}
    (hfound : c.session.authentication.1 = .ok found)
    (hfits : ∀ a, found = some a → Header.unencodable? (Header.bearer a.token) = none) :
    Exchanged path params (bearing found) { c with session := c.session.authentication.2 }
      (c.send path params) := by
  rw [send_eq path params hfound hfits]
  exact exchanged_transmit path params (bearing found) _

theorem send_sends (path : String) (params : Entries String) (h : c.Sends) :
    (c.send path params).1 =
        received c.session.loginUrl (c.hears path (Entries.get? "pcode" params)) ∧
      (c.send path params).2.backend =
        (c.backend.answer (Path.behind c.basePath path) (Entries.get? "pcode" params)).2 ∧
      ((c.send path params).2.session = c.session.authentication.2 ∨
        (c.send path params).2.session = c.session.authentication.2.logout) := by
  obtain ⟨found, hfound, hfits⟩ := h
  have hsent := exchanged_send path params hfound hfits
  refine ⟨?_, hsent.backend, hsent.session⟩
  rw [hsent.outcome, c.session.loginUrl_authentication]
  rfl

/-- A console that has sent a request can send the next one. -/
theorem sends_send (path : String) (params : Entries String) (h : c.Sends) :
    (c.send path params).2.Sends := by
  obtain ⟨_, _, hsession⟩ := send_sends path params h
  obtain ⟨found, hfound, hfits⟩ := h
  have hagain : c.session.authentication.2.authentication =
      (.ok found, c.session.authentication.2) := Session.authentication_again (Prod.ext hfound rfl)
  rcases hsession with hsession | hsession
  · exact ⟨found, by rw [hsession, hagain], hfits⟩
  · exact ⟨none, by rw [hsession, Session.authentication_logout], nofun⟩

end Console

namespace Records

theorem nodeOf_error {parent : Option String} {item : Item} {error : FetchError}
    (h : nodeOf parent item = .error error) :
    ∃ cause, error = ⟨.permanent, cause, parent, none⟩ := by
  unfold nodeOf at h
  split at h
  · cases h
  · cases h
  · cases h
    exact ⟨_, rfl⟩

theorem nodesOfItems_error {parent : Option String} {items : List Item} {error : FetchError}
    (h : nodesOfItems parent items = .error error) :
    ∃ cause, error = ⟨.permanent, cause, parent, none⟩ := by
  induction items with
  | nil => cases h
  | cons item rest ih =>
    cases hitem : nodeOf parent item with
    | error cause =>
      rw [nodesOfItems, hitem] at h
      cases h
      exact nodeOf_error hitem
    | ok first =>
      cases hrest : nodesOfItems parent rest with
      | error cause =>
        rw [nodesOfItems, hitem, hrest] at h
        cases h
        exact ih hrest
      | ok found =>
        rw [nodesOfItems, hitem, hrest] at h
        cases h

/-- Records are refused for good. -/
theorem nodes_error {parent : Option String} {records : Records} {error : FetchError}
    (h : records.nodes parent = .error error) :
    ∃ cause, error = ⟨.permanent, cause, parent, none⟩ := by
  unfold nodes at h
  split at h
  · exact nodesOfItems_error h
  · split at h
    · exact nodesOfItems_error h
    · cases h
      exact ⟨_, rfl⟩

end Records

namespace Endpoint

/-! ### Answers and what becomes of them -/

/-- What an answer to a query becomes, one case for each kind of answer. -/
inductive Judged (e : Endpoint) (parent loginUrl : String) :
    Answer → Except Fault (List Node) → Prop where
  | unreachable (cause : Breakdown) : Judged e parent loginUrl (.breakdown cause)
    (.error (refuse .transient (.unreachable e.path parent cause) parent none))
  | exchange (cause : ExchangeFault) :
    Judged e parent loginUrl (.fault cause) (.error (.exchange cause))
  | ended {status : Int} (body : Body) (h : status = 401 ∨ status = 407) :
    Judged e parent loginUrl (.response status body)
      (.error (.unauthenticated .noSession loginUrl))
  | busy {status : Int} (body : Body) (h : status = 429 ∨ 500 ≤ status) :
    Judged e parent loginUrl (.response status body)
      (.error (refuse .transient (.answered e.path parent status) parent (some status)))
  | refused {status : Int} (body : Body) (h : 400 ≤ status ∧ status < 500)
    (hother : status ≠ 401 ∧ status ≠ 407 ∧ status ≠ 429) :
    Judged e parent loginUrl (.response status body)
      (.error (refuse .permanent (.answered e.path parent status) parent (some status)))
  | notJson {status : Int} {body : Body} {cause : BodyError} (h : status < 400)
    (hbody : body.read = .error cause) : Judged e parent loginUrl (.response status body)
      (.error (refuse .permanent (.notJson e.path parent) parent none))
  | unusable {status : Int} {body : Body} {value : Json} {cause : FetchCause} (h : status < 400)
    (hbody : body.read = .ok value)
    (hnodes : (Records.value value).nodes (some parent) =
      .error ⟨.permanent, cause, some parent, none⟩) :
    Judged e parent loginUrl (.response status body) (.error (refuse .permanent cause parent none))
  | nodes {status : Int} {body : Body} {value : Json} {found : List Node} (h : status < 400)
    (hbody : body.read = .ok value)
    (hnodes : (Records.value value).nodes (some parent) = .ok found) :
    Judged e parent loginUrl (.response status body) (.ok found)

/-- Outcomes of a query that are foreseen: nodes, an error of a known kind that names the parent,
and the end of the session. -/
inductive Classified (parent loginUrl : String) : Except Fault (List Node) → Prop where
  | nodes (found : List Node) : Classified parent loginUrl (.ok found)
  | failed {error : FetchError} (hparent : error.parent = some parent)
    (hseverity : error.severity ≠ .unclassified) :
    Classified parent loginUrl (.error (.fetch error))
  | ended : Classified parent loginUrl (.error (.unauthenticated .noSession loginUrl))

/-- A query whose outcome is not classified: no request goes out, or the exchange fails otherwise
than through the transport. -/
inductive Escapes (e : Endpoint) (q : Query) (c : Console) : Fault → Prop where
  | blocked {fault : Fault} (h : c.Blocked fault) : Escapes e q c fault
  | exchange {cause : ExchangeFault} (hsends : c.Sends)
    (h : c.hears e.path (some q.parent) = .fault cause) : Escapes e q c (.exchange cause)

/-- A query that is answered by the end of the session. -/
inductive EndsSession (e : Endpoint) (q : Query) (c : Console) : Fault → Prop where
  | ended {status : Int} {body : Body} (hsends : c.Sends)
    (h : c.hears e.path (some q.parent) = .response status body)
    (hstatus : status = 401 ∨ status = 407) :
    EndsSession e q c (.unauthenticated .noSession c.session.loginUrl)

/-- The statuses that end the session would count as refusals here, but the console takes them
before an answer is classified. -/
theorem judged_classify (e : Endpoint) (parent loginUrl : String) {status : Int} (body : Body)
    (hstays : ¬ (status = 401 ∨ status = 407)) :
    Judged e parent loginUrl (.response status body) (e.classify parent (status, body)) := by
  rw [not_or] at hstays
  simp only [classify, isTransientStatus, Bool.or_eq_true, decide_eq_true_eq]
  by_cases hbusy : status = 429 ∨ 500 ≤ status
  · rw [if_pos hbusy]
    exact .busy body hbusy
  · rw [if_neg hbusy]
    rw [not_or, Int.not_le] at hbusy
    by_cases hrefused : 400 ≤ status
    · rw [if_pos hrefused]
      exact .refused body ⟨hrefused, hbusy.2⟩ ⟨hstays.1, hstays.2, hbusy.1⟩
    · rw [if_neg hrefused]
      rw [Int.not_le] at hrefused
      cases hbody : body.read with
      | error cause => exact .notJson hrefused hbody
      | ok value =>
        dsimp only
        cases hnodes : (Records.value value).nodes (some parent) with
        | error error =>
          obtain ⟨cause, rfl⟩ := Records.nodes_error hnodes
          exact .unusable hrefused hbody hnodes
        | ok found => exact .nodes hrefused hbody hnodes

variable {e : Endpoint} {q : Query} {c : Console} {fault : Fault}

/-! ### Queries -/

theorem fetch_eq (e : Endpoint) (q : Query) (c : Console) :
    (e.fetch q c).1 = (match (c.send e.path (e.paramsOf q)).1 with
      | .error (.breakdown cause) =>
        .error (refuse .transient (.unreachable e.path q.parent cause) q.parent none)
      | .error (.fault cause) => .error cause
      | .ok response => e.classify q.parent response) ∧
    (e.fetch q c).2 = (c.send e.path (e.paramsOf q)).2 := by
  unfold fetch
  generalize c.send e.path (e.paramsOf q) = sent
  obtain ⟨outcome, c'⟩ := sent
  cases outcome with
  | ok response => exact ⟨rfl, rfl⟩
  | error cause => cases cause <;> exact ⟨rfl, rfl⟩

theorem fetch_blocked (e : Endpoint) (q : Query) (h : c.Blocked fault) :
    (e.fetch q c).1 = .error fault := by
  rw [(fetch_eq e q c).1, Console.send_blocked e.path (e.paramsOf q) h]

/-- A request that goes out is judged by its answer. -/
theorem fetch_judged (e : Endpoint) (q : Query) (h : c.Sends) :
    Judged e q.parent c.session.loginUrl (c.hears e.path (some q.parent)) (e.fetch q c).1 := by
  rw [(fetch_eq e q c).1, (Console.send_sends e.path (e.paramsOf q) h).1, parent_paramsOf]
  cases c.hears e.path (some q.parent) with
  | breakdown cause => exact .unreachable cause
  | fault cause => exact .exchange cause
  | response status body =>
    by_cases hended : status = 401 ∨ status = 407
    · have hends : Console.endsSession status = true := by simpa [Console.endsSession] using hended
      simp only [Console.received, hends, if_true]
      exact .ended body hended
    · have hends : Console.endsSession status = false := by
        simpa [Console.endsSession] using hended
      simp only [Console.received, hends, Bool.false_eq_true, if_false]
      exact judged_classify e q.parent c.session.loginUrl body hended

theorem fetch_escapes (h : e.Escapes q c fault) : (e.fetch q c).1 = .error fault := by
  cases h with
  | blocked hblocked => exact fetch_blocked e q hblocked
  | exchange hsends hfault =>
    have hjudged := fetch_judged e q hsends
    rw [hfault] at hjudged
    generalize (e.fetch q c).1 = outcome at hjudged ⊢
    cases hjudged
    rfl

theorem fetch_endsSession (h : e.EndsSession q c fault) : (e.fetch q c).1 = .error fault := by
  cases h with
  | ended hsends hanswer hstatus =>
    have hjudged := fetch_judged e q hsends
    rw [hanswer] at hjudged
    generalize (e.fetch q c).1 = outcome at hjudged ⊢
    cases hjudged with
    | ended => rfl
    | busy _ h => omega
    | refused _ _ hother => omega
    | notJson h => omega
    | unusable h => omega
    | nodes h => omega

theorem Escapes.ne_fetch (h : e.Escapes q c fault) (error : FetchError) : fault ≠ .fetch error := by
  rintro rfl
  cases h with
  | blocked hblocked => cases hblocked

theorem EndsSession.ne_fetch (h : e.EndsSession q c fault) (error : FetchError) :
    fault ≠ .fetch error := by
  rintro rfl
  cases h

theorem Escapes.not_classified {parent loginUrl : String} (h : e.Escapes q c fault) :
    ¬ Classified parent loginUrl (.error fault) := by
  cases h with
  | blocked hblocked => cases hblocked <;> nofun
  | exchange => nofun

/-- A query that does not escape brings nodes, fails alone, or ends the session. -/
theorem fetch_classified (h : ¬ ∃ fault, e.Escapes q c fault) :
    (∃ found, (e.fetch q c).1 = .ok found) ∨
      (∃ error, (e.fetch q c).1 = .error (.fetch error) ∧ error.parent = some q.parent ∧
        error.severity ≠ .unclassified) ∨
      ∃ fault, e.EndsSession q c fault := by
  rcases c.sends_or_blocked with hsends | ⟨fault, hblocked⟩
  · have hjudged := fetch_judged e q hsends
    generalize hanswer : c.hears e.path (some q.parent) = answer at hjudged
    generalize (e.fetch q c).1 = outcome at hjudged ⊢
    cases hjudged with
    | exchange cause => exact absurd ⟨_, .exchange hsends hanswer⟩ h
    | ended body hstatus => exact .inr (.inr ⟨_, .ended hsends hanswer hstatus⟩)
    | nodes => exact .inl ⟨_, rfl⟩
    | _ => exact .inr (.inl ⟨_, rfl, rfl, by simp⟩)
  · exact absurd ⟨fault, .blocked hblocked⟩ h

theorem classified_iff (e : Endpoint) (q : Query) (c : Console) :
    Classified q.parent c.session.loginUrl (e.fetch q c).1 ↔ ¬ ∃ fault, e.Escapes q c fault := by
  constructor
  · rintro hclassified ⟨fault, hescapes⟩
    rw [fetch_escapes hescapes] at hclassified
    exact hescapes.not_classified hclassified
  · intro h
    rcases fetch_classified h with ⟨found, hfetch⟩ | ⟨error, hfetch, hparent, hseverity⟩ | ⟨_, hends⟩
    · rw [hfetch]
      exact .nodes found
    · rw [hfetch]
      exact .failed hparent hseverity
    · rw [fetch_endsSession hends]
      cases hends
      exact .ended

/-- The faults of a query other than its own failure. -/
theorem fetch_fault_iff : ((e.fetch q c).1 = .error fault ∧ ∀ error, fault ≠ .fetch error) ↔
    e.EndsSession q c fault ∨ e.Escapes q c fault := by
  constructor
  · rintro ⟨hfetch, hother⟩
    by_cases hescapes : ∃ fault, e.Escapes q c fault
    · obtain ⟨escaped, hescaped⟩ := hescapes
      rw [fetch_escapes hescaped] at hfetch
      cases hfetch
      exact .inr hescaped
    · rcases fetch_classified hescapes with ⟨found, hok⟩ | ⟨error, herror, _⟩ | ⟨ended, hended⟩
      · rw [hfetch] at hok
        cases hok
      · rw [hfetch] at herror
        exact absurd (Except.error.inj herror) (hother error)
      · rw [fetch_endsSession hended] at hfetch
        cases hfetch
        exact .inl hended
  · rintro (hends | hescapes)
    · exact ⟨fetch_endsSession hends, hends.ne_fetch⟩
    · exact ⟨fetch_escapes hescapes, hescapes.ne_fetch⟩

end Endpoint

/-! ### Passes over an endpoint -/

namespace Backend

def answers (b : Backend) : List Answer := b.routes.flatMap Prod.snd

def codes (b : Backend) : List String :=
  (b.routes.flatMap fun route => route.2.flatMap answerNodes).filterMap fun n => n.record.code

theorem length_codes_lt (b : Backend) : b.codes.length < backendDepth b :=
  Nat.lt_succ_of_le (List.length_filterMap_le _ _)

theorem mem_codes {b : Backend} {answer : Answer} {n : Node} {code : String}
    (hanswer : answer ∈ b.answers) (hn : n ∈ answerNodes answer)
    (hcode : n.record.code = some code) : code ∈ b.codes := by
  obtain ⟨route, hroute, hanswer⟩ := List.mem_flatMap.mp hanswer
  refine List.mem_filterMap.mpr ⟨n, List.mem_flatMap.mpr ⟨route, hroute, ?_⟩, hcode⟩
  exact List.mem_flatMap.mpr ⟨answer, hanswer, hn⟩

theorem answer_mem (b : Backend) (path : String) (parent : Option String) :
    (b.answer path parent).1 = .notFound ∨ (b.answer path parent).1 ∈ b.answers := by
  simp only [answer]
  split
  · rename_i hget
    exact .inr (List.mem_flatMap.mpr ⟨_, Entries.mem_of_get? hget, List.mem_cons_self⟩)
  · rename_i hget
    exact .inr (List.mem_flatMap.mpr ⟨_, Entries.mem_of_get? hget, List.mem_cons_self⟩)
  · exact .inl rfl

/-- Answering a request never adds an answer. -/
theorem answers_answer (b : Backend) (path : String) (parent : Option String) :
    (b.answer path parent).2.answers ⊆ b.answers := by
  intro given hgiven
  simp only [answer] at hgiven
  split at hgiven
  · rename_i hget
    obtain ⟨route, hroute, hgiven⟩ := List.mem_flatMap.mp hgiven
    rcases Entries.mem_put hroute with hroute | rfl
    · exact List.mem_flatMap.mpr ⟨route, hroute, hgiven⟩
    · exact List.mem_flatMap.mpr ⟨_, Entries.mem_of_get? hget, List.mem_cons_of_mem _ hgiven⟩
  · exact hgiven
  · exact hgiven

end Backend

namespace Endpoint

variable {e : Endpoint} {q : Query} {c : Console}

theorem answers_fetch (e : Endpoint) (q : Query) (c : Console) :
    (e.fetch q c).2.backend.answers ⊆ c.backend.answers := by
  rw [(fetch_eq e q c).2]
  rcases c.sends_or_blocked with hsends | ⟨fault, hblocked⟩
  · rw [(Console.send_sends e.path (e.paramsOf q) hsends).2.1]
    exact c.backend.answers_answer _ _
  · rw [Console.send_blocked e.path (e.paramsOf q) hblocked]
    exact fun _ hgiven => hgiven

/-- The nodes of a query come out of an answer that the backend had. -/
theorem fetch_nodes {found : List Node} (h : (e.fetch q c).1 = .ok found) :
    ∃ answer ∈ c.backend.answers, answerNodes answer = found := by
  rcases c.sends_or_blocked with hsends | ⟨fault, hblocked⟩
  · have hjudged := fetch_judged e q hsends
    rw [h] at hjudged
    generalize hanswer : c.hears e.path (some q.parent) = answer at hjudged
    cases hjudged with
    | @nodes status body value found hstatus hbody hnodes =>
      refine ⟨.response status body, ?_, ?_⟩
      · -- A path without a route is answered by a 404, which brings no nodes.
        rcases c.backend.answer_mem (Path.behind c.basePath e.path) (some q.parent) with
          hmissing | hmem
        · have hmissing : Answer.response status body = .notFound := hanswer.symm.trans hmissing
          cases hmissing
          omega
        · exact hanswer ▸ hmem
      · rw [answerNodes, hbody]
        dsimp only
        rw [Records.nodes_parent hnodes none]
        rfl
  · rw [fetch_blocked e q hblocked] at h
    cases h

/-- The endpoint as the source of a pass for a query. -/
abbrev source (e : Endpoint) (q : Query) : Source Console := endpointSource e q.tenant q.params

theorem delivers_source (e : Endpoint) (q : Query) (c : Console) :
    Delivers (e.source q) c (CodeAmong c.backend.codes) := by
  refine delivers_of_invariant (fun c' : Console => c'.backend.answers ⊆ c.backend.answers) ?_ ?_ ?_
  · exact fun _ hgiven => hgiven
  · intro code c' hkept
    exact fun _ hgiven => hkept (answers_fetch e { q with parent := code } c' hgiven)
  · intro code c' found hkept hfetch n hn own hown
    obtain ⟨answer, hanswer, rfl⟩ := fetch_nodes hfetch
    exact Backend.mem_codes (hkept hanswer) hn hown

/-- One of the requests of a pass met something: it was made in a state that the requests before it
had led to. -/
def Meets (e : Endpoint) (met : Endpoint → Query → Console → Fault → Prop) (q : Query) (c : Console)
    (log : List Asked) (fault : Fault) : Prop :=
  ∃ made c' code, Answers (e.source q) c made c' ∧ met e { q with parent := code } c' fault ∧
    made ++ [⟨code, .error fault⟩] <+: log

section

variable {c' : Console} {made log : List Asked} {fault : Fault}

theorem faults_iff : Faults (e.source q) c log fault ↔
    e.Meets EndsSession q c log fault ∨ e.Meets Escapes q c log fault := by
  constructor
  · rintro ⟨made, c', code, hanswers, hfault, hother, hlog⟩
    rcases fetch_fault_iff.mp ⟨hfault, hother⟩ with hends | hescapes
    · exact .inl ⟨made, c', code, hanswers, hends, hlog⟩
    · exact .inr ⟨made, c', code, hanswers, hescapes, hlog⟩
  · rintro (⟨made, c', code, hanswers, hends, hlog⟩ | ⟨made, c', code, hanswers, hescapes, hlog⟩)
    · obtain ⟨hfault, hother⟩ := fetch_fault_iff.mpr (.inl hends)
      exact ⟨made, c', code, hanswers, hfault, hother, hlog⟩
    · obtain ⟨hfault, hother⟩ := fetch_fault_iff.mpr (.inr hescapes)
      exact ⟨made, c', code, hanswers, hfault, hother, hlog⟩

theorem sends_answers (h : c.Sends) (hanswers : Answers (e.source q) c made c') : c'.Sends := by
  induction hanswers with
  | nil => exact h
  | @snoc _ c' code _ ih =>
    have hsends : (e.fetch { q with parent := code } c').2.Sends := by
      rw [(fetch_eq e _ c').2]
      exact Console.sends_send _ _ ih
    exact hsends

theorem answers_subset (h : Answers (e.source q) c made c') :
    c'.backend.answers ⊆ c.backend.answers := by
  induction h with
  | nil => exact fun _ hgiven => hgiven
  | @snoc _ c' code _ ih =>
    exact fun _ hgiven => ih (answers_fetch e { q with parent := code } c' hgiven)

/-- If the first request can be sent, and no exchange fails outside the transport, only the end of
the session can discard the rest of a forest. -/
theorem endsSession_of_faults (hsends : c.Sends)
    (hclean : ∀ cause, Answer.fault cause ∉ c.backend.answers)
    (h : Faults (e.source q) c log fault) : e.Meets EndsSession q c log fault := by
  rcases faults_iff.mp h with hends | ⟨made, c', code, hanswers, hescapes, _⟩
  · exact hends
  · have hsends' := sends_answers hsends hanswers
    cases hescapes with
    | blocked hblocked => exact absurd hsends' hblocked.not_sends
    | @exchange cause _ hfault =>
      rcases c'.backend.answer_mem (Path.behind c'.basePath e.path) (some code) with
        hmissing | hmem
      · have hmissing : Answer.fault cause = .notFound := hfault.symm.trans hmissing
        cases hmissing
      · have hmem : Answer.fault cause ∈ c'.backend.answers := hfault ▸ hmem
        exact absurd (answers_subset hanswers hmem) (hclean cause)

end

end Endpoint

theorem Resolve.load_ending {σ : Type} {t : Tuning} {source : Source σ} {width depth : Nat}
    {parent : String} {s : σ} {manner : Manner σ}
    (h : Ending t source width s parent (resolve t source depth parent s manner).2.log
      (resolve t source depth parent s manner).1) :
    Ending t source width s parent (load t source depth parent s manner).2.log
      (load t source depth parent s manner).1 := by
  unfold load
  generalize resolve t source depth parent s manner = result at h
  obtain ⟨result, ledger⟩ := result
  cases h with
  | done roots => exact .done _
  | root e hroot => exact .root e hroot
  | pause hpause => exact .pause hpause
  | fault cause hfault => exact .fault cause hfault

namespace Endpoint

/-- Every way in which a query to an endpoint can end. Its outcome is nodes, an error of a known kind
or the end of the session, as its answer says, exactly if it does not escape. Hence a view comes out
of a pass, unless the query for the parent fails, a pause cannot be made, or one of its requests met
the end of the session or an escape; only the end of the session is left if the first request can be
sent and no exchange fails outside the transport. -/
theorem fetch_outcome (e : Endpoint) (q : Query) (c : Console) (t : Tuning)
    (order : Order Console) :
    (Classified q.parent c.session.loginUrl (e.fetch q c).1 ↔ ¬ ∃ fault, e.Escapes q c fault) ∧
    (∀ fault, e.Escapes q c fault → (e.fetch q c).1 = .error fault) ∧
    (c.Sends → e.Judged q.parent c.session.loginUrl (c.hears e.path (some q.parent))
      (e.fetch q c).1) ∧
    (let pass := load t (e.source q) (backendDepth c.backend) q.parent c (.onSchedule none order)
     Ending t (e.source q) (backendDepth c.backend) c q.parent pass.2.log pass.1) ∧
    (∀ log fault, Faults (e.source q) c log fault ↔
      e.Meets EndsSession q c log fault ∨ e.Meets Escapes q c log fault) ∧
    (c.Sends → (∀ cause, Answer.fault cause ∉ c.backend.answers) →
      ∀ log fault, Faults (e.source q) c log fault → e.Meets EndsSession q c log fault) := by
  refine ⟨classified_iff e q c, fun _ => fetch_escapes, fetch_judged e q, load_ending ?_,
    fun _ _ => faults_iff, fun hsends hclean _ _ => endsSession_of_faults hsends hclean⟩
  have hwidth := c.backend.length_codes_lt
  have huncancelled : (Manner.onSchedule none order).Uncancelled := rfl
  apply Ending.wider (Nat.succ_le_of_lt hwidth)
  exact resolve_ending huncancelled (delivers_source e q c) (Nat.le_of_lt hwidth) q.parent

/-! ### A tree lost to one answer -/

def record (code : String) : Json := .object [("code", .text code)]

/-- A console whose backend lists two roots and fails to decode its answer about one of them. -/
def garbled : Console where
  session := ⟨.memory [], none, .whole 0, true, Fault.defaultLoginUrl⟩
  backend := ⟨[("/menus/search#0", [.response 200 (.json (.list [record "R", record "S"]))]),
    ("/menus/search#R", [.fault (.decoding "boom")]),
    ("/menus/search#S", [.response 200 (.json (.list []))])]⟩
  basePath := []
  wrapped := true
  requests := []

def menus : Endpoint := .ofNames defaultResource defaultName []

def thrice : Tuning := ⟨3, .whole 0, .whole 0, 8, by decide, by decide⟩

/-- A pass that was stopped by a garbled answer. -/
def lost : Except Stop View → Bool
  | .error (.fault (.exchange (.decoding _))) => true
  | _ => false

/-- The garbled answer about one root is not classified, and the other root is lost with it. -/
theorem loadEndpoint_garbled :
    (menus.fetch ⟨"R", "0", []⟩ garbled).1 = .error (.exchange (.decoding "boom")) ∧
    ¬ Classified "R" Fault.defaultLoginUrl (menus.fetch ⟨"R", "0", []⟩ garbled).1 ∧
    (menus.fetch ⟨"0", "0", []⟩ garbled).1.isOk ∧
    (menus.fetch ⟨"S", "0", []⟩ garbled).1.isOk ∧
    lost (loadEndpoint thrice menus ⟨"0", "0", []⟩ garbled).1 := by
  have hfetch : (menus.fetch ⟨"R", "0", []⟩ garbled).1 = .error (.exchange (.decoding "boom")) := rfl
  refine ⟨hfetch, ?_, rfl, rfl, by decide +kernel⟩
  rw [hfetch]
  nofun

end Endpoint

end AdminConsole
