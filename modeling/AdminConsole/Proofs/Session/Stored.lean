import AdminConsole.Proofs.Entry.RoundTrip
import AdminConsole.Proofs.Number.Exact
import AdminConsole.Session.Basic

/-!
What a session finds in its store. A load decides by the stored entry and the clock alone, and the
store is the only thing that it may change. It fails for two reasons: a number in the entry has too
many digits, or the last access is too far away from a binary64 clock.
-/

namespace AdminConsole

namespace Authentication

variable {a : Authentication} {now : Number}

/-- The window is over: as many seconds as it lasts have passed since the last access. -/
def Lapsed (a : Authentication) (now : Number) : Prop :=
  ∃ elapsed, now.sub (.whole a.lastAccess) = .ok elapsed ∧ elapsed.atLeast a.expires = true

def Current (a : Authentication) (now : Number) : Prop :=
  ∃ elapsed, now.sub (.whole a.lastAccess) = .ok elapsed ∧ elapsed.atLeast a.expires = false

/-- A binary64 clock has no number near the last access. -/
def Unreachable (a : Authentication) (now : Number) : Prop :=
  (∃ x, now = .real x) ∧ Binary64.wholeLimit ≤ a.lastAccess.natAbs

theorem isExpired_true : a.isExpired now = .ok true ↔ a.Lapsed now := by
  unfold isExpired Lapsed
  cases now.sub (.whole a.lastAccess) <;> simp [bind, Except.bind, pure, Except.pure]

theorem isExpired_false : a.isExpired now = .ok false ↔ a.Current now := by
  unfold isExpired Current
  cases now.sub (.whole a.lastAccess) <;> simp [bind, Except.bind, pure, Except.pure]

theorem isExpired_error : (∃ cause, a.isExpired now = .error cause) ↔ a.Unreachable now := by
  rw [Unreachable, ← Number.sub_whole_error_iff]
  unfold isExpired
  cases now.sub (.whole a.lastAccess) <;> simp [bind, Except.bind, pure, Except.pure]

theorem clock_cases (a : Authentication) (now : Number) :
    a.Unreachable now ∨ a.Lapsed now ∨ a.Current now := by
  cases hexpired : a.isExpired now with
  | error cause => exact .inl (isExpired_error.mp ⟨cause, hexpired⟩)
  | ok expired =>
    cases expired with
    | true => exact .inr (.inl (isExpired_true.mp hexpired))
    | false => exact .inr (.inr (isExpired_false.mp hexpired))

end Authentication

namespace Session

/-! ### Stored entries -/

/-- The entry of the store is read as an authentication. -/
def Holds (store : Store) (a : Authentication) : Prop :=
  ∃ entry, store.get authenticationKey = some entry ∧ readEntry entry = .ok (.ok a)

/-- The entry of the store is not an authentication. -/
def Unreadable (store : Store) : Prop :=
  ∃ entry cause, store.get authenticationKey = some entry ∧ readEntry entry = .ok (.error cause)

/-- The entry of the store has a number that is too long to be read. -/
def Overlong (store : Store) : Prop :=
  ∃ entry cause, store.get authenticationKey = some entry ∧ readEntry entry = .error cause

/-- There is no entry, or one without a character. -/
def Vacant (store : Store) : Prop := (store.get authenticationKey).getD "" = ""

/-- The session without its stored entry. -/
def forget (s : Session) : Session := { s with store := s.store.remove authenticationKey }

theorem Overlong.not_vacant {store : Store} (h : Overlong store) : ¬ Vacant store := by
  obtain ⟨entry, cause, hget, hread⟩ := h
  rw [Vacant, hget, Option.getD_some]
  rintro rfl
  cases hread

/-! ### Loading -/

variable {s : Session} {a : Authentication}

theorem load_vacant (h : Vacant s.store) : s.load = (.ok none, s) := by
  unfold Vacant at h
  unfold load
  cases hget : s.store.get authenticationKey with
  | none => rfl
  | some entry =>
    rw [hget, Option.getD_some] at h
    exact if_pos h

theorem load_entry {entry : String} (hget : s.store.get authenticationKey = some entry)
    (hne : entry ≠ "") :
    s.load = match readEntry entry with
      | .error cause => (.error cause, s)
      | .ok (.error _) => (.ok none, s.forget)
      | .ok (.ok a) =>
        match a.isExpired s.clock with
        | .error cause => (.error cause, s)
        | .ok true => (.ok none, s.forget)
        | .ok false => (.ok (some a), s) := by
  unfold load
  rw [hget]
  exact if_neg hne

theorem readEntry_ne_empty {entry : String} {found : Authentication}
    (h : readEntry entry = .ok (.ok found)) : entry ≠ "" := by
  rintro rfl
  cases h

theorem Holds.not_vacant {store : Store} (h : Holds store a) : ¬ Vacant store := by
  obtain ⟨entry, hget, hread⟩ := h
  rw [Vacant, hget]
  exact readEntry_ne_empty hread

theorem load_current (h : Holds s.store a) (hclock : a.Current s.clock) :
    s.load = (.ok (some a), s) := by
  obtain ⟨entry, hget, hread⟩ := h
  simp only [load_entry hget (readEntry_ne_empty hread), hread,
    Authentication.isExpired_false.mpr hclock]

theorem load_lapsed (h : Holds s.store a) (hclock : a.Lapsed s.clock) :
    s.load = (.ok none, s.forget) := by
  obtain ⟨entry, hget, hread⟩ := h
  simp only [load_entry hget (readEntry_ne_empty hread), hread,
    Authentication.isExpired_true.mpr hclock]

theorem load_unreachable (h : Holds s.store a) (hclock : a.Unreachable s.clock) :
    ∃ cause, s.load = (.error cause, s) := by
  obtain ⟨entry, hget, hread⟩ := h
  obtain ⟨cause, herror⟩ := Authentication.isExpired_error.mpr hclock
  exact ⟨cause, by simp only [load_entry hget (readEntry_ne_empty hread), hread, herror]⟩

theorem load_overlong (h : Overlong s.store) : ∃ cause, s.load = (.error cause, s) := by
  have hvacant := h.not_vacant
  obtain ⟨entry, cause, hget, hread⟩ := h
  rw [Vacant, hget, Option.getD_some] at hvacant
  exact ⟨cause, by simp only [load_entry hget hvacant, hread]⟩

theorem load_unreadable (h : Unreadable s.store) (hvacant : ¬ Vacant s.store) :
    s.load = (.ok none, s.forget) := by
  obtain ⟨entry, cause, hget, hread⟩ := h
  rw [Vacant, hget, Option.getD_some] at hvacant
  simp only [load_entry hget hvacant, hread]

/-- What a load may do: one case for each thing that it may find. -/
inductive Loads (s : Session) : Except NumberError (Option Authentication) × Session → Prop where
  | vacant (h : Vacant s.store) : Loads s (.ok none, s)
  | overlong (cause : NumberError) (h : Overlong s.store) : Loads s (.error cause, s)
  | unreadable (h : Unreadable s.store) (hvacant : ¬ Vacant s.store) : Loads s (.ok none, s.forget)
  | unreachable (cause : NumberError) (a : Authentication) (h : Holds s.store a)
    (hclock : a.Unreachable s.clock) : Loads s (.error cause, s)
  | lapsed (a : Authentication) (h : Holds s.store a) (hclock : a.Lapsed s.clock) :
    Loads s (.ok none, s.forget)
  | current (a : Authentication) (h : Holds s.store a) (hclock : a.Current s.clock) :
    Loads s (.ok (some a), s)

theorem loads (s : Session) : Loads s s.load := by
  by_cases hvacant : Vacant s.store
  · rw [load_vacant hvacant]
    exact .vacant hvacant
  cases hget : s.store.get authenticationKey with
  | none => exact absurd (by rw [Vacant, hget]; rfl) hvacant
  | some entry =>
    cases hread : readEntry entry with
    | error cause =>
      have hoverlong : Overlong s.store := ⟨entry, cause, hget, hread⟩
      obtain ⟨cause, hload⟩ := load_overlong hoverlong
      rw [hload]
      exact .overlong cause hoverlong
    | ok result =>
      cases result with
      | error cause =>
        have hunreadable : Unreadable s.store := ⟨entry, cause, hget, hread⟩
        rw [load_unreadable hunreadable hvacant]
        exact .unreadable hunreadable hvacant
      | ok a =>
        have hholds : Holds s.store a := ⟨entry, hget, hread⟩
        rcases a.clock_cases s.clock with hclock | hclock | hclock
        · obtain ⟨cause, hload⟩ := load_unreachable hholds hclock
          rw [hload]
          exact .unreachable cause a hholds hclock
        · rw [load_lapsed hholds hclock]
          exact .lapsed a hholds hclock
        · rw [load_current hholds hclock]
          exact .current a hholds hclock

theorem load_error_iff : (∃ cause, s.load.1 = .error cause) ↔
    Overlong s.store ∨ ∃ a, Holds s.store a ∧ a.Unreachable s.clock := by
  constructor
  · rintro ⟨cause, h⟩
    have hloads := loads s
    generalize s.load = result at h hloads
    cases hloads with
    | overlong cause hoverlong => exact .inl hoverlong
    | unreachable cause a hholds hclock => exact .inr ⟨a, hholds, hclock⟩
    | _ => cases h
  · rintro (hoverlong | ⟨a, hholds, hclock⟩)
    · obtain ⟨cause, h⟩ := load_overlong hoverlong
      exact ⟨cause, by rw [h]⟩
    · obtain ⟨cause, h⟩ := load_unreachable hholds hclock
      exact ⟨cause, by rw [h]⟩

theorem load_some_iff : s.load.1 = .ok (some a) ↔ Holds s.store a ∧ a.Current s.clock := by
  constructor
  · intro h
    have hloads := loads s
    generalize s.load = result at h hloads
    cases hloads with
    | current found hholds hclock =>
      cases h
      exact ⟨hholds, hclock⟩
    | _ => cases h
  · rintro ⟨hholds, hclock⟩
    rw [load_current hholds hclock]

theorem load_none_iff : s.load.1 = .ok none ↔
    Vacant s.store ∨ Unreadable s.store ∨ ∃ a, Holds s.store a ∧ a.Lapsed s.clock := by
  constructor
  · intro h
    have hloads := loads s
    generalize s.load = result at h hloads
    cases hloads with
    | vacant hvacant => exact .inl hvacant
    | unreadable hunreadable hvacant => exact .inr (.inl hunreadable)
    | lapsed a hholds hclock => exact .inr (.inr ⟨a, hholds, hclock⟩)
    | _ => cases h
  · rintro (hvacant | hunreadable | ⟨a, hholds, hclock⟩)
    · rw [load_vacant hvacant]
    · by_cases hvacant : Vacant s.store
      · rw [load_vacant hvacant]
      · rw [load_unreadable hunreadable hvacant]
    · rw [load_lapsed hholds hclock]

/-- A load changes the session only by removing an entry in which it finds nothing. -/
theorem load_session (s : Session) :
    (s.load = (.ok none, s.forget) ∧ ¬ Vacant s.store) ∨
      s.load.2 = s ∧ (s.load.1 = .ok none ↔ Vacant s.store) := by
  have hloads := loads s
  generalize s.load = result at hloads
  cases hloads with
  | vacant hvacant => exact .inr ⟨rfl, iff_of_true rfl hvacant⟩
  | overlong cause hoverlong => exact .inr ⟨rfl, iff_of_false nofun hoverlong.not_vacant⟩
  | unreadable hunreadable hvacant => exact .inl ⟨rfl, hvacant⟩
  | unreachable cause a hholds hclock => exact .inr ⟨rfl, iff_of_false nofun hholds.not_vacant⟩
  | lapsed a hholds hclock => exact .inl ⟨rfl, hholds.not_vacant⟩
  | current a hholds hclock => exact .inr ⟨rfl, iff_of_false nofun hholds.not_vacant⟩

/-- What a load finds, and what it does. It fails exactly if a number in the entry is too long or a
binary64 clock has no number near the last access, and then nothing changes; it finds an
authentication exactly if the entry is one whose window is open; it finds nothing otherwise, and then
the entry is gone. An entry without a character counts as none, and stays. -/
theorem load_outcome (s : Session) :
    ((∃ cause, s.load.1 = .error cause) ↔
      Overlong s.store ∨ ∃ a, Holds s.store a ∧ a.Unreachable s.clock) ∧
    (∀ a, s.load.1 = .ok (some a) ↔ Holds s.store a ∧ a.Current s.clock) ∧
    (s.load.1 = .ok none ↔
      Vacant s.store ∨ Unreadable s.store ∨ ∃ a, Holds s.store a ∧ a.Lapsed s.clock) ∧
    (s.load = (.ok none, s.forget) ∧ ¬ Vacant s.store ∧
        s.forget.store.get authenticationKey = none ∧ s.forget.held = s.held ∨
      s.load.2 = s ∧ (s.load.1 = .ok none ↔ Vacant s.store)) := by
  refine ⟨load_error_iff, fun a => load_some_iff, load_none_iff, ?_⟩
  rcases load_session s with ⟨hload, hvacant⟩ | hkept
  · exact .inl ⟨hload, hvacant, Store.get_remove_self _ _, rfl⟩
  · exact .inr hkept

/-! ### A session that cannot be left -/

theorem ofJson_toJson {a : Authentication} (htoken : a.token ≠ "") :
    Authentication.ofJson a.toJson = .ok a := if_neg htoken

theorem distinctNames_toJson (a : Authentication) :
    a.toJson.distinctNames = a.details.distinctNames := by
  have hnames : ["token", "expires", "lastAccessTime", "details"].Nodup := by decide
  simp only [Authentication.toJson, Json.distinctNames, Json.distinctNamesEntries, Entries.names,
    List.map_cons, List.map_nil, hnames, decide_true, Bool.true_and, Bool.and_true]

/-- The entry of an authentication is read as this authentication. -/
theorem readEntry_stored (wrapped : Bool) {a : Authentication} (htoken : a.token ≠ "")
    (hdigits : a.toJson.withinDigits = true) (hnames : a.details.distinctNames = true) :
    readEntry (String.ofList (Entry.stored wrapped a.toJson)) = .ok (.ok a) := by
  rw [← distinctNames_toJson] at hnames
  simp only [readEntry, Entry.decode_stored hdigits hnames (.inr rfl), ofJson_toJson htoken]
  rfl

/-- A last access before every number that the clock may show. -/
def remote : Authentication := ⟨"t", 3600, -pow10 309, .null⟩

def stranded : Session where
  store := .memory [(authenticationKey, String.ofList (Entry.stored false remote.toJson))]
  held := none
  clock := .real (.finite false 4744917124795858944 (by decide))
  wrapped := true
  loginUrl := Fault.defaultLoginUrl

/-- The window of a stored authentication is long over, and yet no load removes it. -/
theorem load_stranded : Holds stranded.store remote ∧
    ∃ cause, stranded.load = (.error cause, stranded) := by
  have hdigits : remote.toJson.withinDigits = true := by decide +kernel
  have hholds : Holds stranded.store remote :=
    ⟨_, rfl, readEntry_stored false (by decide) hdigits (by decide)⟩
  have hfar : Binary64.wholeLimit ≤ remote.lastAccess.natAbs := by decide +kernel
  exact ⟨hholds, load_unreachable hholds ⟨⟨_, rfl⟩, hfar⟩⟩

end Session

end AdminConsole
