import AdminConsole.Proofs.Resolve.Traces
import AdminConsole.Proofs.Resource.Classification

/-!
How a session ends. A 401 or 407 ends the session that a query was made with, in memory and in the
store; whatever else the backend answers, the session stays as it was when it was read for the first
request, and every request carries its token. This holds for one query and for all requests of a
pass.
-/

namespace AdminConsole

open Resolve

/-- Nothing is left of a session, in memory or in the store. -/
structure Session.Ended (s : Session) : Prop where
  held : s.held = none
  stored : s.store.get Session.authenticationKey = none

theorem Session.ended_logout (s : Session) : s.logout.Ended :=
  ⟨rfl, Store.get_remove_self _ _⟩

theorem Session.Ended.authentication {s : Session} (h : s.Ended) : s.authentication = (.ok none, s) :=
  authentication_none h.held (load_removed h.stored)

namespace Console

/-- A console goes on with the session that is read in it: every request sent since carries the
token of that session, or nothing if there is none. -/
structure Continues (c c' : Console) : Prop where
  session : c'.session = c.session.authentication.2
  requests : ∃ sent, c'.requests = c.requests ++ sent ∧ ∀ r ∈ sent, ∃ found,
    c.session.authentication.1 = .ok found ∧ r.authorization = bearing found

variable {c c' c'' : Console} {found : Option Authentication}

/-- What is read in a console that goes on is what was read before. -/
theorem Continues.authentication (h : c.Continues c') (hfound : c.session.authentication.1 = .ok found) :
    c'.session.authentication = (.ok found, c'.session) := by
  rw [h.session]
  exact Session.authentication_again (Prod.ext hfound rfl)

theorem Continues.trans (hfound : c.session.authentication.1 = .ok found) (h : c.Continues c')
    (h' : c'.Continues c'') : c.Continues c'' := by
  have hagain := h.authentication hfound
  obtain ⟨sent, hsent, hown⟩ := h.requests
  obtain ⟨more, hmore, hown'⟩ := h'.requests
  refine ⟨?_, sent ++ more, by rw [hmore, hsent, List.append_assoc], fun r hr => ?_⟩
  · rw [h'.session, hagain, h.session]
  · rcases List.mem_append.mp hr with hr | hr
    · exact hown r hr
    · have hr := hown' r hr
      rwa [hagain, ← hfound] at hr

theorem session_transmit (path : String) (params : Entries String) (authorization : Option String)
    (c : Console) : (c.transmit path params authorization).2.session = c.session := by
  simp only [transmit]
  generalize c.backend.answer _ _ = answered
  obtain ⟨answer, backend⟩ := answered
  cases answer <;> rfl

/-- A request with an authorization of its own can end the session, but does not change it otherwise. -/
theorem session_sendAuthorized (path authorization : String) (c : Console) :
    (c.sendAuthorized path authorization).2.session = c.session ∨
      (c.sendAuthorized path authorization).2.session = c.session.logout := by
  unfold sendAuthorized
  split
  · exact .inl rfl
  · dsimp only
    split
    · exact .inl (session_transmit _ _ _ c)
    · exact (exchanged_transmit path [] (some authorization) c).session

theorem revoke_eq (token : String) (c : Console) :
    (c.revoke token).2 = (c.sendAuthorized logoutPath (Header.bearer token)).2 := by
  unfold revoke
  split <;> simp only [*]

theorem send_refused {path : String} {params : Entries String} (hsends : c.Sends)
    (h : c.Refuses path (Entries.get? "pcode" params)) :
    (c.send path params).2.session.Ended := by
  obtain ⟨found, hfound, hfits⟩ := hsends
  rw [(exchanged_send path params hfound hfits).refused h]
  exact Session.ended_logout _

theorem send_continues {path : String} {params : Entries String}
    (h : ¬ (c.Sends ∧ c.Refuses path (Entries.get? "pcode" params))) :
    c.Continues (c.send path params).2 := by
  rcases c.sends_or_blocked with hsends | ⟨fault, hblocked⟩
  · have hstays := fun hrefuses => h ⟨hsends, hrefuses⟩
    obtain ⟨found, hfound, hfits⟩ := hsends
    have hsent := exchanged_send path params hfound hfits
    obtain ⟨r, hr, hown⟩ := hsent.requests
    refine ⟨hsent.kept hstays, [r], hr, fun r' hr' => ⟨found, hfound, ?_⟩⟩
    rw [List.mem_singleton.mp hr', hown]
  · rw [send_blocked path params hblocked]
    exact ⟨rfl, [], (List.append_nil _).symm, by simp⟩

end Console

namespace Endpoint

variable {e : Endpoint} {q : Query} {c c' : Console} {made log : List Asked} {fault : Fault}

theorem endsSession_iff :
    (∃ fault, e.EndsSession q c fault) ↔ c.Sends ∧ c.Refuses e.path (some q.parent) := by
  constructor
  · rintro ⟨_, hsends, hanswer, hstatus⟩
    exact ⟨hsends, _, _, hanswer, hstatus⟩
  · rintro ⟨hsends, _, _, hanswer, hstatus⟩
    exact ⟨_, hsends, hanswer, hstatus⟩

theorem fetch_ended (h : e.EndsSession q c fault) : (e.fetch q c).2.session.Ended := by
  obtain ⟨hsends, hrefuses⟩ := endsSession_iff.mp ⟨fault, h⟩
  rw [(fetch_eq e q c).2]
  exact Console.send_refused hsends (by rwa [parent_paramsOf])

theorem fetch_continues (h : ¬ ∃ fault, e.EndsSession q c fault) :
    c.Continues (e.fetch q c).2 := by
  rw [endsSession_iff] at h
  rw [(fetch_eq e q c).2]
  exact Console.send_continues (by rwa [parent_paramsOf])

/-- A session that has ended is not restored by a query. -/
theorem fetch_stays_ended (h : c.session.Ended) (q : Query) : (e.fetch q c).2.session.Ended := by
  by_cases hends : ∃ fault, e.EndsSession q c fault
  · obtain ⟨fault, hends⟩ := hends
    exact fetch_ended hends
  · rw [(fetch_continues hends).session, h.authentication]
    exact h

/-- Once a request of a pass has met the end of the session, the session is gone for good. -/
theorem ended_of_meets (hanswers : Answers (e.source q) c made c')
    (h : e.Meets EndsSession q c made fault) : c'.session.Ended := by
  induction hanswers with
  | nil =>
    obtain ⟨earlier, _, _, _, _, hprefix⟩ := h
    simp at hprefix
  | @snoc made c' code hanswers ih =>
    obtain ⟨earlier, c₁, other, hreached, hends, hprefix⟩ := h
    -- The request that met the end is the last one, or all after it found the session gone.
    rcases List.prefix_concat_iff.mp hprefix with hall | hbefore
    · obtain ⟨rfl, hlast⟩ := List.append_inj' hall rfl
      obtain rfl : other = code := congrArg Asked.code (List.singleton_inj.mp hlast)
      rw [hanswers.unique hreached]
      exact fetch_ended hends
    · exact fetch_stays_ended (ih ⟨earlier, c₁, other, hreached, hends, hbefore⟩) _

/-- As long as no request of a pass meets the end of the session, the console goes on with the session
that was read for the first one. -/
theorem continues_of_answers {found : Option Authentication}
    (hfound : c.session.authentication.1 = .ok found) (hanswers : Answers (e.source q) c made c')
    (hne : made ≠ []) (h : ∀ fault, ¬ e.Meets EndsSession q c made fault) : c.Continues c' := by
  induction hanswers with
  | nil => exact absurd rfl hne
  | @snoc made c' code hanswers ih =>
    have hlast : c'.Continues (e.fetch { q with parent := code } c').2 := by
      apply fetch_continues
      rintro ⟨fault, hends⟩
      refine h fault ⟨made, c', code, hanswers, hends, ?_⟩
      have houtcome : ((e.source q) code c').1.outcome = .error fault := fetch_endsSession hends
      rw [houtcome]
    by_cases hfirst : made = []
    · subst hfirst
      rwa [hanswers.unique .nil] at hlast ⊢
    · refine .trans hfound (ih hfirst fun fault hmeets => h fault ?_) hlast
      obtain ⟨earlier, c₁, other, hreached, hends, hprefix⟩ := hmeets
      exact ⟨earlier, c₁, other, hreached, hends, hprefix.trans (List.prefix_append _ _)⟩

/-- If the session cannot even be read, a pass ends with its first query, and nothing is sent. -/
theorem continues_of_unread {cause : NumberError} {c' : Console} {log : List Asked} {brought : Bool}
    (hfound : c.session.authentication.1 = .error cause)
    (h : Traced (e.source q) q.parent c c' log brought) : c.Continues c' := by
  have hblocked : c.Blocked (.number cause) := .number hfound
  obtain ⟨outcome, rest, rfl, hrest⟩ := h.first
  obtain rfl : outcome = (e.source q q.parent c).1.outcome := h.answers.outcome_first
  have hspoils : Spoils (e.source q q.parent c).1.outcome :=
    ⟨.number cause, fetch_blocked e q hblocked, nofun⟩
  obtain rfl := hrest hspoils
  rw [h.answers.unique (.single (e.source q) q.parent c)]
  apply fetch_continues (q := q)
  rw [endsSession_iff]
  exact fun hends => hblocked.not_sends hends.1

/-- Only a 401 or 407 ends a session. A query that is answered by one raises that the user has to log
in, and a pass that meets one brings no view; the session is gone then, in memory and in the store.
Without one, whatever else is answered and however often, the console goes on with the session that
was read for the first request. -/
theorem ended_or_continues (e : Endpoint) (q : Query) (c : Console) (t : Tuning) (depth : Nat)
    (manner : Manner Console) :
    ((∃ fault, e.EndsSession q c fault) →
      (e.fetch q c).1 = .error (.unauthenticated .noSession c.session.loginUrl) ∧
        (e.fetch q c).2.session.Ended) ∧
    ((¬ ∃ fault, e.EndsSession q c fault) → c.Continues (e.fetch q c).2) ∧
    let pass := load t (e.source q) depth q.parent c manner
    ((∃ fault, e.Meets EndsSession q c pass.2.log fault) →
      (∀ view, pass.1 ≠ .ok view) ∧ pass.2.source.session.Ended) ∧
    ((¬ ∃ fault, e.Meets EndsSession q c pass.2.log fault) → c.Continues pass.2.source) := by
  have htraced := load_traced t (e.source q) depth q.parent c manner
  refine ⟨?_, fetch_continues, ?_, ?_⟩
  · rintro ⟨fault, hends⟩
    refine ⟨?_, fetch_ended hends⟩
    rw [fetch_endsSession hends]
    cases hends
    rfl
  · rintro ⟨fault, hmeets⟩
    refine ⟨fun view hview => ?_, ended_of_meets htraced.answers hmeets⟩
    obtain ⟨made, c', code, _, hends, hprefix⟩ := hmeets
    have hmem := hprefix.subset (List.mem_append_right made List.mem_cons_self)
    exact htraced.clean (by rw [hview]; rfl) _ hmem ⟨fault, rfl, hends.ne_fetch⟩
  · intro hnone
    cases hfound : c.session.authentication.1 with
    | error cause => exact continues_of_unread hfound htraced
    | ok found =>
      refine continues_of_answers hfound htraced.answers ?_ fun fault h => hnone ⟨fault, h⟩
      obtain ⟨outcome, rest, hlog, _⟩ := htraced.first
      rw [hlog]
      exact List.cons_ne_nil _ _

end Endpoint

end AdminConsole
