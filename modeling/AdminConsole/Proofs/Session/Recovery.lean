import AdminConsole.Proofs.Session.Stored

/-!
Recovering a session. What a session answers when it is asked for its authentication it answers
again: an authentication that was found is held from then on, and where nothing was found there is
nothing left to be read.
-/

namespace AdminConsole.Session

variable {s s' : Session} {a : Authentication}

theorem loginUrl_login (a : Authentication) (s : Session) : (s.login a).2.loginUrl = s.loginUrl := by
  simp only [login]
  split <;> rfl

theorem held_login (a : Authentication) (s : Session) : (s.login a).2.held = some a := by
  simp only [login]
  split <;> rfl

theorem load_removed (h : s.store.get authenticationKey = none) : s.load = (.ok none, s) :=
  load_vacant (by rw [Vacant, h]; rfl)

theorem authentication_held (h : s.held = some a) : s.authentication = (.ok (some a), s) := by
  rw [authentication, h]

theorem authentication_none (hheld : s.held = none) (hload : s.load = (.ok none, s')) :
    s.authentication = (.ok none, s') := by
  rw [authentication, hheld, hload]

theorem authentication_logout (s : Session) : s.logout.authentication = (.ok none, s.logout) :=
  authentication_none rfl (load_removed (Store.get_remove_self _ _))

/-- A session in which nothing was found stays as it is when it is read again. -/
theorem load_again (h : s.load = (.ok none, s')) :
    s'.load = (.ok none, s') ∧ s'.held = s.held ∧ s'.loginUrl = s.loginUrl := by
  rcases load_session s with ⟨hforget, _⟩ | ⟨hsame, _⟩
  · rw [h] at hforget
    cases hforget
    exact ⟨load_removed (Store.get_remove_self _ _), rfl, rfl⟩
  · rw [h] at hsame
    cases hsame
    exact ⟨h, rfl, rfl⟩

/-- What asking for the authentication may do. -/
inductive Recovers (s : Session) :
    Except NumberError (Option Authentication) × Session → Prop where
  | found (a : Authentication) (s' : Session) (hheld : s'.held = some a)
    (hurl : s'.loginUrl = s.loginUrl) : Recovers s (.ok (some a), s')
  | nothing (s' : Session) (hagain : s'.authentication = (.ok none, s'))
    (hurl : s'.loginUrl = s.loginUrl) : Recovers s (.ok none, s')
  | failed (cause : NumberError) (s' : Session) (hurl : s'.loginUrl = s.loginUrl) :
    Recovers s (.error cause, s')

theorem recovers (s : Session) : Recovers s s.authentication := by
  cases hheld : s.held with
  | some a =>
    rw [authentication_held hheld]
    exact .found a s hheld rfl
  | none =>
    have hloads := loads s
    generalize hload : s.load = loaded at hloads
    rw [authentication, hheld, hload]
    cases hloads with
    | vacant | unreadable | lapsed =>
      obtain ⟨hagain, hheld', hurl⟩ := load_again hload
      exact .nothing _ (authentication_none (hheld'.trans hheld) hagain) hurl
    | overlong | unreachable => exact .failed _ s rfl
    | current a =>
      dsimp only
      split
      · exact .failed _ s rfl
      · rename_i now _
        have hheld' := held_login { a with lastAccess := now } s
        have hurl := loginUrl_login { a with lastAccess := now } s
        generalize s.login _ = result at hheld' hurl ⊢
        obtain ⟨_ | _, s'⟩ := result
        · exact .failed _ s' hurl
        · exact .found _ s' hheld' hurl

theorem loginUrl_authentication (s : Session) : s.authentication.2.loginUrl = s.loginUrl := by
  have hrecovers := s.recovers
  generalize s.authentication = result at hrecovers
  cases hrecovers <;> assumption

/-- A session answers again what it has answered. -/
theorem authentication_again {found : Option Authentication} (h : s.authentication = (.ok found, s')) :
    s'.authentication = (.ok found, s') := by
  have hrecovers := s.recovers
  rw [h] at hrecovers
  cases hrecovers with
  | found a s' hheld => exact authentication_held hheld
  | nothing s' hagain => exact hagain

end AdminConsole.Session
