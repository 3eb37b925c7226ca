import AdminConsole.Proofs.Json.Readable
import AdminConsole.Proofs.Session.Stored

/-!
The sliding window of a stored authentication. Processes visit one store, one after the other; each
of them asks once, for the token or only whether there is a session. As long as every visit comes in
time the authentication stays in the store, and a request for the token moves its last access; the
first visit that is late removes it.
-/

namespace AdminConsole

theorem Store.get_set_self {s : Store} (h : s ≠ .discarding) (key value : String) :
    (s.set key value).get key = some value := by
  cases s with
  | memory entries => exact Store.get_set_self_memory entries key value
  | discarding => exact absurd rfl h
  | table rows durable =>
    have hnone : (Store.deleteRows key rows).find? (fun row => row.key = key) = none := by
      simp [Store.deleteRows]
    simp [Store.set, Store.get, List.find?_append, hnone]

theorem Store.set_ne_discarding {s : Store} (h : s ≠ .discarding) (key value : String) :
    s.set key value ≠ .discarding := by
  cases s with
  | memory entries => exact nofun
  | discarding => exact absurd rfl h
  | table rows durable => exact nofun

/-! ### Authentications that can be stored -/

namespace Json

theorem distinctNames_get? {name : String} {value : Json} {entries : List (String × Json)}
    (h : distinctNamesEntries entries = true) (hget : Entries.get? name entries = some value) :
    value.distinctNames = true := by
  induction entries with
  | nil => cases hget
  | cons entry entries ih =>
    obtain ⟨key, first⟩ := entry
    rw [distinctNamesEntries, Bool.and_eq_true] at h
    rw [Entries.get?] at hget
    split at hget
    · cases hget
      exact h.1
    · exact ih h.2 hget

theorem distinctNames_field (name : String) {entries : List (String × Json)}
    (h : (Json.object entries).distinctNames = true) :
    (field name entries).distinctNames = true := by
  rw [distinctNames, Bool.and_eq_true] at h
  rw [field]
  cases hget : Entries.get? name entries with
  | none => rfl
  | some value => exact distinctNames_get? h.2 hget

end Json

namespace Authentication

/-- What a stored authentication has to be to come back as it was. -/
structure Storable (a : Authentication) : Prop where
  token : a.token ≠ ""
  names : a.details.distinctNames = true
  digits : a.toJson.withinDigits = true

theorem ok_of_bind {ε α β : Type} {first : Except ε α} {next : α → Except ε β} {b : β}
    (h : first >>= next = .ok b) : ∃ a, first = .ok a ∧ next a = .ok b := by
  cases first with
  | error cause => cases h
  | ok a => exact ⟨a, rfl, h⟩

theorem ofJson_ok {value : Json} {a : Authentication} (h : ofJson value = .ok a) :
    a.token ≠ "" ∧ ∃ entries, value = .object entries ∧
      requiredWhole "expires" entries = .ok a.expires ∧
      requiredWhole "lastAccessTime" entries = .ok a.lastAccess ∧
      a.details = Json.field "details" entries := by
  cases value with
  | object entries =>
    rw [ofJson] at h
    obtain ⟨token, -, h⟩ := ok_of_bind h
    obtain ⟨expires, hexpires, h⟩ := ok_of_bind h
    obtain ⟨lastAccess, haccess, h⟩ := ok_of_bind h
    split at h
    · split at h
      · cases h
      · cases h
        exact ⟨by assumption, entries, rfl, hexpires, haccess, rfl⟩
    · cases h
  | _ => cases h

theorem toJson_withinDigits {a : Authentication} : a.toJson.withinDigits = true ↔
    (Json.number (.whole a.expires)).withinDigits = true ∧
      (Json.number (.whole a.lastAccess)).withinDigits = true ∧ a.details.withinDigits = true := by
  simp only [toJson, Json.withinDigits, Json.withinDigitsEntries, Bool.true_and, Bool.and_true,
    Bool.and_eq_true]

/-- The last access may move to every time that can be written. -/
theorem Storable.access {a : Authentication} (h : a.Storable) {now : Int}
    (hnow : (Json.number (.whole now)).withinDigits = true) :
    Storable { a with lastAccess := now } := by
  obtain ⟨hexpires, -, hdetails⟩ := toJson_withinDigits.mp h.digits
  exact ⟨h.token, h.names, toJson_withinDigits.mpr ⟨hexpires, hnow, hdetails⟩⟩

theorem storable_of_ofJson {value : Json} {a : Authentication} (hread : ofJson value = .ok a)
    (hnames : value.distinctNames = true) (hdigits : a.toJson.withinDigits = true) :
    a.Storable := by
  obtain ⟨htoken, entries, rfl, -, -, hdetails⟩ := ofJson_ok hread
  refine ⟨htoken, ?_, hdigits⟩
  rw [hdetails]
  exact Json.distinctNames_field "details" hnames

/-- Where the difference to the last access is exact, the window is open up to its very end. -/
theorem current_of_lt {a : Authentication} {now : Number} (h : now.SubExact a.lastAccess)
    (hopen : now.lt (.whole (a.lastAccess + a.expires)) = true) : a.Current now := by
  obtain ⟨elapsed, u, hsub, hunits, helapsed⟩ := h
  rw [Number.lt_whole_iff hunits, Int.add_mul] at hopen
  refine ⟨elapsed, hsub, ?_⟩
  rw [Bool.eq_false_iff, Ne, Number.atLeast_iff helapsed]
  omega

theorem lapsed_of_not_lt {a : Authentication} {now : Number} (h : now.SubExact a.lastAccess)
    (hclosed : ¬ now.lt (.whole (a.lastAccess + a.expires)) = true) : a.Lapsed now := by
  obtain ⟨elapsed, u, hsub, hunits, helapsed⟩ := h
  rw [Number.lt_whole_iff hunits, Int.add_mul] at hclosed
  refine ⟨elapsed, hsub, ?_⟩
  rw [Number.atLeast_iff helapsed]
  omega

end Authentication

/-! ### Sessions over a store -/

namespace Session

variable {s s' : Session} {a : Authentication}

theorem login_eq (h : a.toJson.withinDigits = true) :
    s.login a = (.ok (), { s with
      held := some a
      store := s.store.set authenticationKey
        (String.ofList (Entry.stored s.wrapped a.toJson)) }) := by
  simp only [login, Entry.encode_eq, if_pos h]

theorem digits_of_login (h : (s.login a).1 = .ok ()) : a.toJson.withinDigits = true := by
  by_cases hdigits : a.toJson.withinDigits = true
  · exact hdigits
  · simp only [login, Entry.encode_eq, if_neg hdigits] at h
    cases h

/-- A store that keeps what is written holds an authentication after a login. -/
theorem holds_login (h : a.Storable) (hstore : s.store ≠ .discarding) :
    Holds (s.login a).2.store a ∧ (s.login a).2.store ≠ .discarding := by
  rw [login_eq h.digits]
  exact ⟨⟨_, Store.get_set_self hstore _ _, readEntry_stored s.wrapped h.token h.digits h.names⟩,
    Store.set_ne_discarding hstore _ _⟩

theorem authToken_none (hheld : s.held = none) (hload : s.load = (.ok none, s')) :
    s.authToken = (.error (.unauthenticated .noSession s'.loginUrl), s') := by
  simp only [authToken, authentication, hheld, hload]

theorem authToken_some {now : Int} (hheld : s.held = none) (hload : s.load = (.ok (some a), s))
    (hnow : s.clock.truncate = .ok now) (h : Authentication.Storable { a with lastAccess := now }) :
    s.authToken = (.ok a.token, (s.login { a with lastAccess := now }).2) := by
  simp only [authToken, authentication, hheld, hload, hnow, login_eq h.digits]

theorem isLogged_eq {found : Option Authentication} (hheld : s.held = none)
    (hload : s.load = (.ok found, s')) : s.isLogged = (.ok found.isSome, s') := by
  simp only [isLogged, hheld, hload]

end Session

/-! ### Visits -/

/-- One question of one process: its clock, how it writes entries, where it sends a user to log in,
and whether it asks for the token. -/
structure Visit where
  clock : Number
  wrapped : Bool
  loginUrl : String
  asksToken : Bool

namespace Visit

inductive Reply where
  | logged (found : Except NumberError Bool)
  | token (found : Except Fault String)

/-- The process, which holds nothing in memory yet. -/
def session (v : Visit) (store : Store) : Session := ⟨store, none, v.clock, v.wrapped, v.loginUrl⟩

/-- What the process hears, and the store that it leaves. -/
def ask (v : Visit) (store : Store) : Reply × Store :=
  if v.asksToken then
    let (found, s) := (v.session store).authToken
    (.token found, s.store)
  else
    let (found, s) := (v.session store).isLogged
    (.logged found, s.store)

def granted (v : Visit) (a : Authentication) : Reply :=
  if v.asksToken then .token (.ok a.token) else .logged (.ok true)

def refused (v : Visit) : Reply :=
  if v.asksToken then .token (.error (.unauthenticated .noSession v.loginUrl))
  else .logged (.ok false)

/-- The last access after a visit that came in time: a request for the token moves it. -/
def access (last : Int) (v : Visit) : Int :=
  match v.asksToken, v.clock.truncate with
  | true, .ok now => now
  | _, _ => last

/-- The visit comes before the window is over. -/
def InTime (v : Visit) (last : Int) (a : Authentication) : Prop :=
  v.clock.lt (.whole (last + a.expires)) = true

/-- The clock is an exact number: its distance from the last access is not rounded, and it can be
written. -/
structure Exact (v : Visit) (last : Int) : Prop where
  difference : v.clock.SubExact last
  digits : (Json.number v.clock).withinDigits = true

variable {v : Visit} {a : Authentication} {last : Int} {store : Store}

theorem granted_ne_refused : v.granted a ≠ v.refused := by
  unfold granted refused
  cases v.asksToken with
  | true => exact nofun
  | false => exact nofun

theorem Exact.truncate (h : v.Exact last) : ∃ now, v.clock.truncate = .ok now ∧
    (Json.number (.whole now)).withinDigits = true := by
  obtain ⟨-, u, -, hunits, -⟩ := h.difference
  have htruncate := Number.truncate_of_units hunits
  refine ⟨_, htruncate, ?_⟩
  have hdigits := h.digits
  cases hclock : v.clock with
  | whole n =>
    rw [hclock, Number.truncate] at htruncate
    rw [hclock] at hdigits
    exact Except.ok.inj htruncate ▸ hdigits
  | real x =>
    rw [hclock] at hunits
    exact Json.withinDigits_of_lt (Binary64.truncate?_lt (Number.truncate?_of_units hunits))

/-- A store between two visits: it keeps what is written, and it holds the authentication with its
last access. -/
structure Keeps (store : Store) (a : Authentication) (last : Int) : Prop where
  faithful : store ≠ .discarding
  storable : Authentication.Storable { a with lastAccess := last }
  holds : Session.Holds store { a with lastAccess := last }

theorem ask_inTime (hkeeps : Keeps store a last) (hexact : v.Exact last)
    (hintime : v.InTime last a) :
    (v.ask store).1 = v.granted a ∧ Keeps (v.ask store).2 a (v.access last) := by
  have hload : (v.session store).load = (.ok (some { a with lastAccess := last }), v.session store) :=
    Session.load_current hkeeps.holds
      (Authentication.current_of_lt hexact.difference hintime)
  unfold ask granted access
  cases v.asksToken with
  | false =>
    rw [Session.isLogged_eq rfl hload]
    exact ⟨rfl, hkeeps⟩
  | true =>
    obtain ⟨now, hnow, hdigits⟩ := hexact.truncate
    have hstorable := hkeeps.storable.access hdigits
    rw [Session.authToken_some rfl hload hnow hstorable, hnow]
    obtain ⟨hholds, hfaithful⟩ := Session.holds_login (s := v.session store) hstorable hkeeps.faithful
    exact ⟨rfl, hfaithful, hstorable, hholds⟩

/-- A visit that finds nothing is refused, and leaves no entry. -/
theorem ask_none {s' : Session} (h : (v.session store).load = (.ok none, s'))
    (hurl : s'.loginUrl = v.loginUrl) : v.ask store = (v.refused, s'.store) := by
  unfold ask refused
  cases v.asksToken with
  | false =>
    rw [Session.isLogged_eq rfl h]
    rfl
  | true =>
    rw [Session.authToken_none rfl h, hurl]
    rfl

theorem ask_late (hkeeps : Keeps store a last) (hexact : v.Exact last) (hlate : ¬ v.InTime last a) :
    (v.ask store).1 = v.refused ∧ (v.ask store).2.get Session.authenticationKey = none := by
  have hload : (v.session store).load = (.ok none, (v.session store).forget) :=
    Session.load_lapsed hkeeps.holds (Authentication.lapsed_of_not_lt hexact.difference hlate)
  rw [ask_none hload rfl]
  exact ⟨rfl, Store.get_remove_self _ _⟩

theorem ask_empty (hnone : store.get Session.authenticationKey = none) :
    v.ask store = (v.refused, store) := by
  have hvacant : Session.Vacant (v.session store).store := by
    rw [Session.Vacant, session, hnone]
    rfl
  exact ask_none (Session.load_vacant hvacant) rfl

/-! ### Many visits -/

def storeAfter (store : Store) (visits : List Visit) : Store :=
  visits.foldl (fun store v => (v.ask store).2) store

/-- The last access after visits that all came in time. -/
def accessAfter (last : Int) (visits : List Visit) : Int := visits.foldl access last

/-- Whether all visits are granted. -/
def AllGranted (a : Authentication) : Store → List Visit → Prop
  | _, [] => True
  | store, v :: rest => (v.ask store).1 = v.granted a ∧ AllGranted a (v.ask store).2 rest

/-- Whether all visits have exact clocks, each for the last access before it. -/
def AllExact : Int → List Visit → Prop
  | _, [] => True
  | last, v :: rest => v.Exact last ∧ AllExact (v.access last) rest

theorem storeAfter_empty (visits : List Visit) (hnone : store.get Session.authenticationKey = none) :
    storeAfter store visits = store := by
  induction visits with
  | nil => rfl
  | cons v rest ih => rw [storeAfter, List.foldl_cons, ask_empty hnone, ← storeAfter, ih]

/-- What visits leave behind: the authentication with its last access, or nothing. -/
theorem keeps_storeAfter {visits : List Visit} (hkeeps : Keeps store a last)
    (hexact : AllExact last visits) :
    (AllGranted a store visits ∧ Keeps (storeAfter store visits) a (accessAfter last visits)) ∨
      (¬ AllGranted a store visits ∧
        (storeAfter store visits).get Session.authenticationKey = none) := by
  induction visits generalizing store last with
  | nil => exact .inl ⟨trivial, hkeeps⟩
  | cons v rest ih =>
    obtain ⟨hfirst, hrest⟩ := hexact
    by_cases hintime : v.InTime last a
    · obtain ⟨hreply, hnext⟩ := ask_inTime hkeeps hfirst hintime
      rcases ih hnext hrest with ⟨hgranted, hend⟩ | ⟨hrefused, hend⟩
      · exact .inl ⟨⟨hreply, hgranted⟩, hend⟩
      · exact .inr ⟨fun h => hrefused h.2, hend⟩
    · obtain ⟨hreply, hnone⟩ := ask_late hkeeps hfirst hintime
      refine .inr ⟨fun h => granted_ne_refused (h.1.symm.trans hreply), ?_⟩
      rw [storeAfter, List.foldl_cons, ← storeAfter, storeAfter_empty rest hnone]
      exact hnone

theorem allExact_append {before after : List Visit} (h : AllExact last (before ++ after)) :
    AllExact last before ∧ AllExact (accessAfter last before) after := by
  induction before generalizing last with
  | nil => exact ⟨trivial, h⟩
  | cons v rest ih =>
    obtain ⟨hrest, hafter⟩ := ih h.2
    exact ⟨⟨h.1, hrest⟩, hafter⟩

/-- Clocks that show at least `u` units, never go back and stay below 2⁵³ seconds. -/
def Ordered : Nat → List Visit → Prop
  | _, [] => True
  | u, v :: rest => ∃ u' : Nat, v.clock.units? = some (u' : Int) ∧ u ≤ u' ∧
      u' < pow2 53 * Binary64.unitsPerOne ∧ Ordered u' rest

theorem ordered_real {u rank : Nat} {bounded : rank < 2047 * pow2 52} {wrapped asksToken : Bool}
    {loginUrl : String} {rest : List Visit} (hle : u ≤ Binary64.unitsOfRank rank)
    (hbound : Binary64.unitsOfRank rank < pow2 53 * Binary64.unitsPerOne)
    (hrest : Ordered (Binary64.unitsOfRank rank) rest) :
    Ordered u (⟨.real (.finite false rank bounded), wrapped, loginUrl, asksToken⟩ :: rest) :=
  ⟨_, rfl, hle, hbound, hrest⟩

theorem ordered_whole {u n : Nat} {wrapped asksToken : Bool} {loginUrl : String}
    {rest : List Visit} (hle : u ≤ n * Binary64.unitsPerOne)
    (hbound : n * Binary64.unitsPerOne < pow2 53 * Binary64.unitsPerOne)
    (hrest : Ordered (n * Binary64.unitsPerOne) rest) :
    Ordered u (⟨.whole n, wrapped, loginUrl, asksToken⟩ :: rest) :=
  ⟨_, congrArg some (Int.natCast_mul _ _).symm, hle, hbound, hrest⟩

theorem exact_of_ordered {last u : Nat} (hclock : v.clock.units? = some (u : Int))
    (hlast : last * Binary64.unitsPerOne ≤ u) (hbound : u < pow2 53 * Binary64.unitsPerOne) :
    v.Exact last := by
  cases hv : v.clock with
  | whole n =>
    rw [hv, Number.units?, Option.some.injEq] at hclock
    have hn : n.natAbs < pow2 53 := by
      apply Nat.lt_of_mul_lt_mul_right (a := Binary64.unitsPerOne)
      rwa [← Int.natAbs_natCast Binary64.unitsPerOne, ← Int.natAbs_mul, hclock, Int.natAbs_natCast,
        Int.natAbs_natCast]
    have hdigits : n.natAbs < pow2 1024 := Nat.lt_of_lt_of_le hn (pow2_le (by decide))
    refine ⟨?_, ?_⟩
    · rw [hv]
      exact Number.subExact_whole n last
    · rw [hv]
      exact Json.withinDigits_of_lt hdigits
  | real x =>
    rw [hv] at hclock
    refine ⟨?_, ?_⟩
    · rw [hv]
      exact Number.subExact_real hclock hbound hlast
    · rw [hv]
      rfl

/-- Ordinary clocks are exact, if the last access is not ahead of them. -/
theorem allExact_of_ordered {last u : Nat} {visits : List Visit}
    (hlast : last * Binary64.unitsPerOne ≤ u) (h : Ordered u visits) : AllExact last visits := by
  induction visits generalizing last u with
  | nil => trivial
  | cons v rest ih =>
    obtain ⟨u', hclock, hle, hbound, hrest⟩ := h
    refine ⟨exact_of_ordered hclock (Nat.le_trans hlast hle) hbound, ?_⟩
    have htruncate : v.clock.truncate = .ok ((u' / Binary64.unitsPerOne : Nat) : Int) :=
      Number.truncate_of_units hclock
    unfold access
    cases v.asksToken with
    | false => exact ih (Nat.le_trans hlast hle) hrest
    | true =>
      rw [htruncate]
      exact ih (Nat.div_mul_le_self _ _) hrest

/-- After a login, every visit is granted exactly if all visits before it were and it comes before
the window is over, which the last request for the token has moved. What is granted leaves the
authentication in the store, with nothing but the last access changed; what is refused leaves no
entry. -/
theorem granted_iff_inTime {value : Json} {a : Authentication} {s : Session} {before : List Visit}
    {v : Visit} (hread : Authentication.ofJson value = .ok a) (hnames : value.distinctNames = true)
    (hstore : s.store ≠ .discarding) (hlogin : (s.login a).1 = .ok ())
    (hexact : AllExact a.lastAccess (before ++ [v])) :
    ((v.ask (storeAfter (s.login a).2.store before)).1 = v.granted a ↔
      AllGranted a (s.login a).2.store before ∧ v.InTime (accessAfter a.lastAccess before) a) ∧
    ((v.ask (storeAfter (s.login a).2.store before)).1 = v.granted a ∧
        Session.Holds (v.ask (storeAfter (s.login a).2.store before)).2
          { a with lastAccess := accessAfter a.lastAccess (before ++ [v]) } ∨
      (v.ask (storeAfter (s.login a).2.store before)).1 = v.refused ∧
        (v.ask (storeAfter (s.login a).2.store before)).2.get Session.authenticationKey = none) := by
  have hdigits := Session.digits_of_login hlogin
  have hstorable := Authentication.storable_of_ofJson hread hnames hdigits
  obtain ⟨hholds, hfaithful⟩ := Session.holds_login hstorable hstore
  have hkeeps : Keeps (s.login a).2.store a a.lastAccess := ⟨hfaithful, hstorable, hholds⟩
  obtain ⟨hbefore, hlast, -⟩ := allExact_append hexact
  rcases keeps_storeAfter hkeeps hbefore with ⟨hgranted, hend⟩ | ⟨hrefused, hnone⟩
  · by_cases hintime : v.InTime (accessAfter a.lastAccess before) a
    · obtain ⟨hreply, hnext⟩ := ask_inTime hend hlast hintime
      refine ⟨iff_of_true hreply ⟨hgranted, hintime⟩, .inl ⟨hreply, ?_⟩⟩
      rw [accessAfter, List.foldl_append]
      exact hnext.holds
    · obtain ⟨hreply, hnone⟩ := ask_late hend hlast hintime
      exact ⟨iff_of_false (fun h => granted_ne_refused (h.symm.trans hreply)) fun h => hintime h.2,
        .inr ⟨hreply, hnone⟩⟩
  · rw [ask_empty hnone]
    exact ⟨iff_of_false (fun h => granted_ne_refused h.symm) fun h => hrefused h.1,
      .inr ⟨rfl, hnone⟩⟩

def member : Authentication := ⟨"t", 100, 1000, .object [("name", .text "é")]⟩

def desk : Session := ⟨.memory [], none, .whole 1000, false, "/login"⟩

/-- Three visits in time, at 1050.5, 1099.75 and 1150 seconds; the second one asks for the token. -/
def early : List Visit :=
  [⟨.real (.finite false 4652334963306266624 (by decide)), false, "/login", false⟩,
    ⟨.real (.finite false 4652551567096938496 (by decide)), true, "/login", true⟩,
    ⟨.whole (1150 : Nat), true, "/login", false⟩]

/-- A visit at 1199 seconds, just when the window of 100 seconds is over. -/
def late : Visit := ⟨.real (.finite false 4652988073213165568 (by decide)), true, "/login", true⟩

theorem ordered_early : Ordered (1000 * Binary64.unitsPerOne) (early ++ [late]) :=
  ordered_real (by decide +kernel) (by decide +kernel)
    (ordered_real (by decide +kernel) (by decide +kernel)
      (ordered_whole (by decide +kernel) (by decide +kernel)
        (ordered_real (by decide +kernel) (by decide +kernel) trivial)))

theorem granted_iff_inTime_late :
    Authentication.ofJson member.toJson = .ok member ∧ member.toJson.distinctNames = true ∧
      desk.store ≠ .discarding ∧ (desk.login member).1 = .ok () ∧
      AllExact member.lastAccess (early ++ [late]) ∧
      (late.ask (storeAfter (desk.login member).2.store early)).1 = late.refused ∧
      (late.ask (storeAfter (desk.login member).2.store early)).2.get
        Session.authenticationKey = none := by
  have hread : Authentication.ofJson member.toJson = .ok member :=
    Session.ofJson_toJson (by decide)
  have hnames : member.toJson.distinctNames = true := by decide
  have hstore : desk.store ≠ .discarding := by decide
  have hlogin : (desk.login member).1 = .ok () := by rw [Session.login_eq (by decide)]
  have hexact : AllExact (1000 : Nat) (early ++ [late]) :=
    allExact_of_ordered (Nat.le_refl _) ordered_early
  have hlate : ¬ late.InTime (accessAfter member.lastAccess early) member := by
    unfold InTime
    decide +kernel
  obtain ⟨hgranted, hreply⟩ := granted_iff_inTime hread hnames hstore hlogin hexact
  refine ⟨hread, hnames, hstore, hlogin, hexact, ?_⟩
  rcases hreply with ⟨hreply, -⟩ | hrefused
  · exact absurd (hgranted.mp hreply).2 hlate
  · exact hrefused

end Visit

end AdminConsole
