import AdminConsole.Proofs.Session.Agreement

/-!
Asking whether there is a session. The question is answered as a request for the authentication or for
its token would be, and it changes less: memory stays as it is, and the store loses at most an entry
that is unreadable or whose window is over. Only where a stored session cannot be written again with
the time of the clock does the question find one and the request fail.
-/

namespace AdminConsole

namespace Session

variable {s s' : Session} {a : Authentication} {found : Option Authentication}

/-! ### Other entries -/

/-- Nothing changed in the store but the entry of the session. -/
def KeepsOthers (before after : Session) : Prop :=
  ∀ key ≠ authenticationKey, after.store.get key = before.store.get key

theorem keepsOthers_login (a : Authentication) (s : Session) : KeepsOthers s (s.login a).2 := by
  intro key hkey
  simp only [login]
  split
  · exact Store.get_set_of_ne hkey _ _
  · rfl

theorem keepsOthers_load (s : Session) : KeepsOthers s s.load.2 := by
  intro key hkey
  rcases load_session s with ⟨hforget, -⟩ | ⟨hsame, -⟩
  · rw [hforget]
    exact Store.get_remove_of_ne hkey _
  · rw [hsame]

/-- A session is recovered by writing its own entry, and no other. -/
theorem keepsOthers_authentication (s : Session) : KeepsOthers s s.authentication.2 := by
  cases hheld : s.held with
  | some a =>
    rw [authentication_held hheld]
    exact fun _ _ => rfl
  | none =>
    have hloads := loads s
    have hkept := keepsOthers_load s
    generalize hload : s.load = loaded at hloads hkept
    rw [authentication, hheld, hload]
    cases hloads with
    | vacant | unreadable | lapsed | overlong | unreachable => exact hkept
    | current a =>
      dsimp only
      split
      · exact hkept
      · rename_i now _
        have hwritten := keepsOthers_login { a with lastAccess := now } s
        generalize s.login _ = written at hwritten ⊢
        obtain ⟨_ | _, s'⟩ := written
        · exact hwritten
        · exact hwritten

/-! ### Sessions that are there -/

/-- There is a session with this authentication: it is held, or it is stored and its window is open. -/
def Has (s : Session) (a : Authentication) : Prop :=
  s.held = some a ∨ s.held = none ∧ Holds s.store a ∧ a.Current s.clock

/-- A session that is only stored can be recovered: the clock shows a time that can be written as its
last access. -/
def Recoverable (s : Session) : Prop :=
  s.held = none → ∃ now, s.clock.truncate = .ok now ∧
    (Json.number (.whole now)).withinDigits = true

/-- The authentication that a session answers with: the held one, or the stored one with the time of
the clock as its last access. -/
inductive Brings (s : Session) : Authentication → Prop where
  | held {a : Authentication} (h : s.held = some a) : Brings s a
  | stored {a : Authentication} {now : Int} (hheld : s.held = none) (hholds : Holds s.store a)
    (hclock : a.Current s.clock) (hnow : s.clock.truncate = .ok now)
    (hdigits : (Json.number (.whole now)).withinDigits = true) :
    Brings s { a with lastAccess := now }

theorem exists_brings : (∃ a, s.Brings a) ↔ (∃ a, s.Has a) ∧ s.Recoverable := by
  constructor
  · rintro ⟨a, hbrings⟩
    cases hbrings with
    | held h =>
      refine ⟨⟨a, .inl h⟩, fun hnone => ?_⟩
      rw [h] at hnone
      cases hnone
    | stored hheld hholds hclock hnow hdigits =>
      exact ⟨⟨_, .inr ⟨hheld, hholds, hclock⟩⟩, fun _ => ⟨_, hnow, hdigits⟩⟩
  · rintro ⟨⟨a, hheld | ⟨hheld, hholds, hclock⟩⟩, hrecoverable⟩
    · exact ⟨a, .held hheld⟩
    · obtain ⟨now, hnow, hdigits⟩ := hrecoverable hheld
      exact ⟨_, .stored hheld hholds hclock hnow hdigits⟩

theorem authentication_brought (h : s.Brings a) : ∃ s', s.authentication = (.ok (some a), s') := by
  cases h with
  | held h => exact ⟨s, authentication_held h⟩
  | stored hheld hholds hclock hnow hdigits =>
    have hload := load_current hholds hclock
    obtain ⟨entry, -, hread⟩ := hholds
    have hstorable := (storable_of_readEntry hread).access hdigits
    exact ⟨_, by simp only [authentication, hheld, hload, hnow, login_eq hstorable.digits]; rfl⟩

theorem brings_of_authentication (h : s.authentication.1 = .ok (some a)) : s.Brings a := by
  cases hheld : s.held with
  | some b =>
    rw [authentication_held hheld] at h
    cases h
    exact .held hheld
  | none =>
    have hloads := loads s
    generalize hload : s.load = loaded at hloads
    rw [authentication, hheld, hload] at h
    cases hloads with
    | vacant | unreadable | lapsed | overlong | unreachable => cases h
    | current b hholds hclock =>
      dsimp only at h
      split at h
      · cases h
      · rename_i now hnow
        have hdigits := digits_of_login (s := s) (a := { b with lastAccess := now })
        generalize s.login _ = written at h hdigits
        obtain ⟨_ | _, s'⟩ := written
        · cases h
        · cases h
          have hwritable := Authentication.toJson_withinDigits.mp (hdigits rfl)
          exact .stored hheld hholds hclock hnow hwritable.2.1

theorem authentication_some_iff :
    (∃ a, s.authentication.1 = .ok (some a)) ↔ (∃ a, s.Has a) ∧ s.Recoverable := by
  rw [← exists_brings]
  constructor
  · rintro ⟨a, h⟩
    exact ⟨a, brings_of_authentication h⟩
  · rintro ⟨a, hbrings⟩
    obtain ⟨s', hbrought⟩ := authentication_brought hbrings
    exact ⟨a, by rw [hbrought]⟩

/-- A stored session that cannot be recovered stays stored. -/
theorem authentication_unrecoverable (h : s.Has a) (hunrecoverable : ¬s.Recoverable) :
    ∃ cause s', s.authentication = (.error cause, s') ∧ s'.store = s.store := by
  rcases h with hheld | ⟨hheld, hholds, hclock⟩
  · refine absurd (fun hnone => ?_) hunrecoverable
    rw [hheld] at hnone
    cases hnone
  · have hload := load_current hholds hclock
    cases hnow : s.clock.truncate with
    | error cause =>
      exact ⟨cause, s, by simp only [authentication, hheld, hload, hnow], rfl⟩
    | ok now =>
      have hlong : ¬(Authentication.toJson { a with lastAccess := now }).withinDigits = true :=
        fun hdigits => hunrecoverable fun _ =>
          ⟨now, hnow, (Authentication.toJson_withinDigits.mp hdigits).2.1⟩
      refine ⟨.tooManyDigitsToWrite, { s with held := some { a with lastAccess := now } }, ?_, rfl⟩
      simp only [authentication, hheld, hload, hnow, login, Entry.encode_eq, if_neg hlong]

/-! ### The token -/

theorem authToken_of_some (h : s.authentication = (.ok (some a), s')) :
    s.authToken = (.ok a.token, s') := by
  rw [authToken, h]

theorem authToken_of_error {cause : NumberError} (h : s.authentication = (.error cause, s')) :
    s.authToken = (.error (.number cause), s') := by
  rw [authToken, h]

theorem authToken_ok_iff :
    (∃ token, s.authToken.1 = .ok token) ↔ ∃ a, s.authentication.1 = .ok (some a) := by
  unfold authToken
  generalize s.authentication = result
  obtain ⟨_ | _ | a, s'⟩ := result
  · exact ⟨nofun, nofun⟩
  · exact ⟨nofun, nofun⟩
  · exact ⟨fun _ => ⟨a, rfl⟩, fun _ => ⟨a.token, rfl⟩⟩

/-- Whether there is a session cannot be told, or there is none, or it is one of the two kinds. -/
theorem isLogged_cases (s : Session) :
    (∃ cause, s.isLogged = (.error cause, s)) ∨
      (∃ s', s.isLogged = (.ok false, s') ∧ KeepsOthers s s') ∨
      ∃ a, s.isLogged = (.ok true, s) ∧ s.Has a := by
  cases hheld : s.held with
  | some a => exact .inr (.inr ⟨a, by rw [isLogged, hheld], .inl hheld⟩)
  | none =>
    have hloads := loads s
    have hkept := keepsOthers_load s
    generalize hload : s.load = loaded at hloads hkept
    cases hloads with
    | vacant | unreadable | lapsed => exact .inr (.inl ⟨_, isLogged_eq hheld hload, hkept⟩)
    | overlong cause | unreachable cause =>
      exact .inl ⟨cause, by simp only [isLogged, hheld, hload]⟩
    | current a hholds hclock =>
      exact .inr (.inr ⟨a, isLogged_eq hheld hload, .inr ⟨hheld, hholds, hclock⟩⟩)

theorem authToken_has (h : s.Has a) (hrecoverable : s.Recoverable) :
    ∃ s', s.authToken = (.ok a.token, s') ∧ KeepsOthers s s' := by
  have hkept := keepsOthers_authentication s
  rcases h with hheld | ⟨hheld, hholds, hclock⟩
  · obtain ⟨s', hbrought⟩ := authentication_brought (.held hheld)
    rw [hbrought] at hkept
    exact ⟨s', authToken_of_some hbrought, hkept⟩
  · obtain ⟨now, hnow, hdigits⟩ := hrecoverable hheld
    obtain ⟨s', hbrought⟩ := authentication_brought (.stored hheld hholds hclock hnow hdigits)
    have htoken := authToken_of_some hbrought
    rw [hbrought] at hkept
    exact ⟨s', htoken, hkept⟩

theorem authToken_unrecoverable (h : s.Has a) (hunrecoverable : ¬s.Recoverable) :
    ∃ cause s', s.authToken = (.error (.number cause), s') := by
  obtain ⟨cause, s', herror, -⟩ := authentication_unrecoverable h hunrecoverable
  exact ⟨cause, s', authToken_of_error herror⟩

/-! ### Asking whether there is a session -/

/-- What asking leaves: memory as it was, and a store that has lost at most an entry that is
unreadable or whose window is over. -/
structure Checked (s s' : Session) : Prop where
  held : s'.held = s.held
  loginUrl : s'.loginUrl = s.loginUrl
  store : s'.store = s.store ∨ s'.store = s.store.remove authenticationKey ∧
    (Unreadable s.store ∨ ∃ a, Holds s.store a ∧ a.Lapsed s.clock)

theorem checked_refl (s : Session) : Checked s s := ⟨rfl, rfl, .inl rfl⟩

theorem checked_forget (h : Unreadable s.store ∨ ∃ a, Holds s.store a ∧ a.Lapsed s.clock) :
    Checked s s.forget := ⟨rfl, rfl, .inr ⟨rfl, h⟩⟩

/-- A load that finds nothing leaves a store in which there is nothing to be found. -/
theorem load_nothing (h : s.load = (.ok none, s')) : Checked s s' ∧ s'.load = (.ok none, s') := by
  have hloads := loads s
  have hagain := (load_again h).1
  rw [h] at hloads
  refine ⟨?_, hagain⟩
  cases hloads with
  | vacant => exact checked_refl s
  | unreadable hunreadable => exact checked_forget (.inl hunreadable)
  | lapsed a hholds hclock => exact checked_forget (.inr ⟨a, hholds, hclock⟩)

theorem isLogged_found (h : s.Has a) : s.isLogged = (.ok true, s) := by
  rcases h with hheld | ⟨hheld, hholds, hclock⟩
  · rw [isLogged, hheld]
  · exact isLogged_eq hheld (load_current hholds hclock)

/-- There is no session exactly where a request for the authentication finds none. -/
theorem isLogged_false_iff : s.isLogged.1 = .ok false ↔ s.authentication.1 = .ok none := by
  cases hheld : s.held with
  | some a =>
    rw [isLogged, hheld, authentication_held hheld]
    constructor
    · intro h
      cases h
    · intro h
      cases h
  | none =>
    have hloads := loads s
    generalize hload : s.load = loaded at hloads
    rw [isLogged, authentication, hheld, hload]
    cases hloads with
    | vacant | unreadable | lapsed => exact iff_of_true rfl rfl
    | overlong | unreachable =>
      constructor
      · intro h
        cases h
      · intro h
        cases h
    | current a =>
      constructor
      · intro h
        cases h
      · intro h
        dsimp only at h
        split at h
        · cases h
        · generalize s.login _ = written at h
          obtain ⟨_ | _, s'⟩ := written <;> cases h

/-- As long as the store can be read, asking whether there is a session gives an answer, which it gives
again, and leaves memory as it is. There is a session exactly if a request for the authentication, or
for its token, succeeds where what it finds can be recovered. Without a session a request for the token
is refused and leaves the same state as asking; with one that cannot be recovered it fails and leaves
the entry stored. -/
theorem isLogged_agrees (hread : ∃ found, s.load.1 = .ok found) :
    ∃ logged s', s.isLogged = (.ok logged, s') ∧ s'.isLogged = (.ok logged, s') ∧ Checked s s' ∧
      ((∃ a, s.authentication.1 = .ok (some a)) ↔ logged = true ∧ s.Recoverable) ∧
      ((∃ token, s.authToken.1 = .ok token) ↔ logged = true ∧ s.Recoverable) ∧
      (logged = false → s.authToken = (.error (.unauthenticated .noSession s.loginUrl), s')) ∧
      (logged = true → ¬s.Recoverable → ∃ cause, s.authToken.1 = .error (.number cause) ∧
        s.authToken.2.store = s.store) := by
  rw [authToken_ok_iff, authentication_some_iff]
  by_cases hhas : ∃ a, s.Has a
  · have hiff : (∃ a, s.Has a) ∧ s.Recoverable ↔ true = true ∧ s.Recoverable :=
      and_congr_left fun _ => iff_of_true hhas rfl
    obtain ⟨a, ha⟩ := hhas
    have hfound := isLogged_found ha
    refine ⟨true, s, hfound, hfound, checked_refl s, hiff, hiff, nofun, fun _ hunrecoverable => ?_⟩
    obtain ⟨cause, s', herror, hstore⟩ := authentication_unrecoverable ha hunrecoverable
    rw [authToken_of_error herror]
    exact ⟨cause, rfl, hstore⟩
  · have hheld : s.held = none := by
      cases hheld : s.held with
      | none => rfl
      | some a => exact absurd ⟨a, .inl hheld⟩ hhas
    have hnone : s.load.1 = .ok none := by
      obtain ⟨_ | a, hload⟩ := hread
      · exact hload
      · obtain ⟨hholds, hclock⟩ := load_some_iff.mp hload
        exact absurd ⟨a, .inr ⟨hheld, hholds, hclock⟩⟩ hhas
    have hload : s.load = (.ok none, s.load.2) := Prod.ext hnone rfl
    obtain ⟨hchecked, hagain⟩ := load_nothing hload
    have hiff : (∃ a, s.Has a) ∧ s.Recoverable ↔ false = true ∧ s.Recoverable :=
      and_congr_left fun _ => iff_of_false hhas Bool.false_ne_true
    refine ⟨false, s.load.2, isLogged_eq hheld hload,
      isLogged_eq (hchecked.held.trans hheld) hagain, hchecked, hiff, hiff, fun _ => ?_, nofun⟩
    rw [authToken_none hheld hload, hchecked.loginUrl]

/-- A session that is only stored, in the process that finds it. -/
def left (clock : Number) : Session where
  store := .memory [(authenticationKey, String.ofList (Entry.stored false Visit.member.toJson))]
  held := none
  clock := clock
  wrapped := false
  loginUrl := Fault.defaultLoginUrl

theorem left_has {clock : Number} (h : Visit.member.Current clock) : (left clock).Has Visit.member :=
  .inr ⟨rfl, ⟨_, rfl, readEntry_stored false (by decide) (by decide) (by decide)⟩, h⟩

theorem load_left {clock : Number} (h : Visit.member.Current clock) :
    (left clock).load = (.ok (some Visit.member), left clock) := by
  obtain hheld | ⟨-, hholds, hclock⟩ := left_has h
  · cases hheld
  · exact load_current hholds hclock

theorem isLogged_agrees_left :
    (left (.whole 1050)).load.1 = .ok (some Visit.member) ∧
      (left (.whole 1050)).isLogged.1 = .ok true ∧
      ∃ token, (left (.whole 1050)).authToken.1 = .ok token := by
  have hclock : Visit.member.Current (.whole 1050) := ⟨.whole 50, rfl, rfl⟩
  have hload := load_left hclock
  have hrecoverable : (left (.whole 1050)).Recoverable := fun _ => ⟨1050, rfl, by decide⟩
  obtain ⟨logged, s', hlogged, -, -, -, htoken, -⟩ :=
    isLogged_agrees ⟨some Visit.member, by rw [hload]⟩
  have hfound := isLogged_found (left_has hclock)
  rw [hlogged] at hfound
  cases hfound
  rw [hload, hlogged]
  exact ⟨rfl, rfl, htoken.mpr ⟨rfl, hrecoverable⟩⟩

/-- On a clock that stands before every time each window is open. -/
theorem current_timeless : Visit.member.Current (.real (.infinite true)) := by
  have hexact : (1000 : Nat) < pow2 53 := by decide
  obtain ⟨y, hround, hunits⟩ := Binary64.ofInt?_small hexact
  have helapsed : (Number.real (.infinite true)).sub (.whole Visit.member.lastAccess) =
      .ok (.real (.infinite true)) := by
    cases y with
    | finite negative rank bounded => exact Number.sub_real hround
    | nan => cases hunits
    | infinite negative => cases hunits
  exact ⟨_, helapsed, rfl⟩

theorem authentication_timeless : (left (.real (.infinite true))).authentication =
    (.error .infinityHasNoWholePart, left (.real (.infinite true))) := by
  rw [authentication, show (left _).held = none from rfl, load_left current_timeless]
  rfl

/-- There is a session, and yet neither its authentication nor its token can be had. -/
theorem isLogged_timeless :
    (left (.real (.infinite true))).load.1 = .ok (some Visit.member) ∧
      (left (.real (.infinite true))).isLogged.1 = .ok true ∧
      (left (.real (.infinite true))).authentication.1 = .error .infinityHasNoWholePart ∧
      (left (.real (.infinite true))).authToken.1 = .error (.number .infinityHasNoWholePart) := by
  rw [authToken_of_error authentication_timeless, authentication_timeless,
    isLogged_found (left_has current_timeless), load_left current_timeless]
  exact ⟨rfl, rfl, rfl, rfl⟩

end Session

end AdminConsole
