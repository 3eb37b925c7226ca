import AdminConsole.Proofs.Json.Readable
import AdminConsole.Proofs.Session.Recovery
import AdminConsole.Proofs.Session.Window

/-!
Memory and store. A session that holds an authentication, and whose store has an entry for it, has
the same authentication in both: what is written comes back as it was, and what is read is written
again when it is held. No operation of a session breaks this, unless the new authentication cannot be
written: then it is held, and the entry is still the one before.
-/

namespace AdminConsole

namespace Authentication

variable {a : Authentication}

theorem requiredWhole_ok {name : String} {entries : Entries Json} {n : Int}
    (h : requiredWhole name entries = .ok n) :
    ∃ v, Entries.get? name entries = some v ∧ v.toWhole = .ok n := by
  obtain ⟨v, hget, hwhole⟩ := ok_of_bind h
  refine ⟨v, ?_, ?_⟩
  · unfold required at hget
    split at hget <;> cases hget
    assumption
  · cases hn : v.toWhole with
    | error cause =>
      rw [hn] at hwhole
      cases hwhole
    | ok m =>
      rw [hn] at hwhole
      cases hwhole
      rfl

/-- What is read from a readable record can be stored. -/
theorem storable_of_readable {value : Json} (hread : ofJson value = .ok a)
    (h : value.Readable) : a.Storable := by
  refine storable_of_ofJson hread h.names (toJson_withinDigits.mpr ?_)
  obtain ⟨-, entries, rfl, hexpires, haccess, hdetails⟩ := ofJson_ok hread
  have hwhole : ∀ {name n}, requiredWhole name entries = .ok n →
      (Json.number (.whole n)).withinDigits = true := by
    intro name n hok
    obtain ⟨v, hget, hv⟩ := requiredWhole_ok hok
    exact (h.get? hget).toWhole hv
  refine ⟨hwhole hexpires, hwhole haccess, ?_⟩
  rw [hdetails, Json.field]
  cases hget : Entries.get? "details" entries with
  | none => rfl
  | some v => exact (h.get? hget).digits

end Authentication

namespace Session

variable {s : Session} {a : Authentication}

theorem storable_of_readEntry {entry : String} (h : readEntry entry = .ok (.ok a)) : a.Storable := by
  unfold readEntry at h
  split at h
  · cases h
  · cases h
  · rename_i value hdecode
    refine Authentication.storable_of_readable ?_ (Entry.readable_of_decode hdecode)
    cases hread : Authentication.ofJson value with
    | error cause =>
      rw [hread] at h
      cases h
    | ok found =>
      rw [hread] at h
      cases h
      rfl

/-- If an authentication is held that can be written, and there is an entry, then the entry is read as
what is held. -/
def Agrees (s : Session) : Prop :=
  ∀ a entry, s.held = some a → a.toJson.withinDigits = true →
    s.store.get authenticationKey = some entry → Entry.decode entry = .ok a.toJson

theorem agrees_of_held (h : s.held = none) : s.Agrees := by
  intro a entry hheld
  rw [h] at hheld
  cases hheld

theorem agrees_of_stored (h : s.store.get authenticationKey = none) : s.Agrees := by
  intro a entry _ _ hget
  rw [h] at hget
  cases hget

theorem agrees_login (hnames : a.details.distinctNames = true) (s : Session) :
    (s.login a).2.Agrees := by
  by_cases hstore : s.store = .discarding
  · apply agrees_of_stored
    simp only [login, hstore]
    split <;> rfl
  · intro other entry hheld hdigits hget
    rw [held_login] at hheld
    cases hheld
    rw [login_eq hdigits] at hget
    rw [Store.get_set_self hstore, Option.some.injEq] at hget
    rw [← hget]
    exact Entry.decode_stored hdigits (by rwa [distinctNames_toJson]) (.inr rfl)

/-- What cannot be written is held all the same. -/
theorem login_overlong (h : ¬ a.toJson.withinDigits = true) (s : Session) :
    s.login a = (.error .tooManyDigitsToWrite, { s with held := some a }) := by
  simp only [login, Entry.encode_eq, if_neg h]

namespace Agrees

theorem load (h : s.Agrees) : s.load.2.Agrees := by
  rcases load_session s with ⟨hload, -⟩ | ⟨hsame, -⟩
  · rw [hload]
    exact agrees_of_stored (Store.get_remove_self _ _)
  · rw [hsame]
    exact h

/-- An authentication that is recovered is written with the time of the clock when it is held. -/
theorem authentication (h : s.Agrees) : s.authentication.2.Agrees := by
  cases hheld : s.held with
  | some a =>
    rw [authentication_held hheld]
    exact h
  | none =>
    have hloads := loads s
    have hloaded := h.load
    generalize hload : s.load = loaded at hloads hloaded
    rw [Session.authentication, hheld, hload]
    cases hloads with
    | vacant | unreadable | lapsed => exact hloaded
    | overlong | unreachable => exact h
    | current a hholds =>
      dsimp only
      split
      · exact h
      · rename_i now hnow
        obtain ⟨entry, -, hread⟩ := hholds
        have hlogin := agrees_login (a := { a with lastAccess := now })
          (storable_of_readEntry hread).names s
        generalize s.login _ = result at hlogin ⊢
        obtain ⟨_ | _, s'⟩ := result
        · exact hlogin
        · exact hlogin

theorem isLogged (h : s.Agrees) : s.isLogged.2.Agrees := by
  have hloaded := h.load
  unfold Session.isLogged
  split
  · exact h
  · generalize s.load = loaded at hloaded ⊢
    obtain ⟨_ | _, s'⟩ := loaded
    · exact hloaded
    · exact hloaded

theorem authToken (h : s.Agrees) : s.authToken.2.Agrees := by
  have hread := h.authentication
  unfold Session.authToken
  generalize s.authentication = found at hread ⊢
  obtain ⟨_ | _ | _, s'⟩ := found
  · exact hread
  · exact hread
  · exact hread

/-- Nothing but the entry of the session has to agree with what is held. -/
theorem withStore (h : s.Agrees) {store : Store}
    (hstore : store.get authenticationKey = none ∨
      store.get authenticationKey = s.store.get authenticationKey) :
    Agrees { s with store } := by
  intro a entry hheld hdigits hget
  rcases hstore with hnone | hsame
  · rw [hnone] at hget
    cases hget
  · rw [hsame] at hget
    exact h a entry hheld hdigits hget

end Agrees

end Session

end AdminConsole
