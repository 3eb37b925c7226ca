import AdminConsole.Settings.Basic

/-!
How the settings are read. Every field is read by itself, from the value given for it or as its
default; the settings are there when each field is, and otherwise every field that is refused is
reported, in the order of the fields.
-/

namespace AdminConsole.Settings

/-! ### Checked values -/

namespace Checked

variable {α β : Type}

def issues : Checked α → List Issue
  | .fine _ => []
  | .refused issues => issues

/-- A value is refused for a reason. -/
def Justified (x : Checked α) : Prop := ∀ issues, x = .refused issues → issues ≠ []

theorem and_eq_fine_iff {f : Checked (α → β)} {x : Checked α} {b : β} :
    f.and x = .fine b ↔ ∃ g a, f = .fine g ∧ x = .fine a ∧ g a = b := by
  cases f <;> cases x <;> simp [Checked.and]

theorem issues_and (f : Checked (α → β)) (x : Checked α) :
    (f.and x).issues = f.issues ++ x.issues := by
  cases f <;> cases x <;> simp [Checked.and, issues]

theorem Justified.fine (a : α) : Justified (.fine a) := nofun

theorem Justified.and {f : Checked (α → β)} {x : Checked α} (hf : f.Justified)
    (hx : x.Justified) : (f.and x).Justified := by
  intro issues h
  cases f with
  | fine g =>
    cases x with
    | fine a => cases h
    | refused second =>
      cases h
      exact hx _ rfl
  | refused first =>
    have hfirst := hf first rfl
    cases x with
    | fine a =>
      cases h
      exact hfirst
    | refused second =>
      cases h
      exact List.append_ne_nil_of_left_ne_nil hfirst second

/-- A checked value is fine exactly when there is nothing to report. -/
theorem Justified.eq_refused_iff {x : Checked α} (h : x.Justified) {issues : List Issue} :
    x = .refused issues ↔ issues ≠ [] ∧ issues = x.issues := by
  cases x with
  | fine a => simp [Checked.issues]
  | refused found =>
    have hfound := h found rfl
    simp only [Checked.issues, Checked.refused.injEq]
    constructor
    · rintro rfl
      exact ⟨hfound, rfl⟩
    · exact fun hissues => hissues.2.symm

end Checked

/-! ### One field -/

section Field

variable {α : Type} {given : String → Option Json} {name : String}
  {read : Json → Except Refused α} {default x : α}

/-- The field has the value that is read for it, or its default if none is given. -/
def Reads (given : String → Option Json) (name : String) (read : Json → Except Refused α)
    (default x : α) : Prop :=
  match given name with
  | none => x = default
  | some value => read value = .ok x

theorem reads_default (h : given name = none) : Reads given name read default default := by
  rw [Reads, h]

theorem reads_value {value : Json} (h : given name = some value) (hread : read value = .ok x) :
    Reads given name read default x := by
  rw [Reads, h]
  exact hread

/-- Why a reader refuses a value, if it does. -/
def refusal (read : Json → Except Refused α) (value : Json) : Option Refused :=
  match read value with
  | .ok _ => none
  | .error cause => some cause

/-- What is reported of one field. -/
def refusedField (given : String → Option Json) (name : String)
    (refuses : Json → Option Refused) : Option Issue :=
  ((given name).bind refuses).map fun cause => ⟨some name, cause⟩

theorem refusal_map {β : Type} (f : α → β) :
    (refusal fun value => f <$> read value) = refusal read := by
  funext value
  dsimp only [refusal]
  cases read value <;> rfl

theorem field_eq_fine_iff : field given name read default = .fine x ↔
    Reads given name read default x := by
  unfold field Reads
  cases given name with
  | none => simp [eq_comm]
  | some value =>
    dsimp only
    cases read value <;> simp

theorem issues_field : (field given name read default).issues =
    (refusedField given name (refusal read)).toList := by
  unfold field refusedField refusal
  cases given name with
  | none => rfl
  | some value =>
    dsimp only [Option.bind_some]
    cases read value <;> rfl

theorem field_justified : (field given name read default).Justified := by
  unfold field
  cases given name with
  | none => exact Checked.Justified.fine default
  | some value =>
    dsimp only
    cases read value with
    | ok x => exact Checked.Justified.fine x
    | error cause =>
      rintro issues ⟨rfl⟩
      exact List.cons_ne_nil _ _

end Field

theorem find_kind_eq_some_iff {name : String} {kind : StoreKind} :
    [StoreKind.table, .memory, .discarding].find? (fun kind => kind.name = name) = some kind ↔
      name = kind.name := by
  constructor
  · intro h
    have hname := List.find?_some h
    exact (of_decide_eq_true hname).symm
  · rintro rfl
    cases kind <;> rfl

/-- A store is read from the name of one, whatever its case and the blanks around it. -/
theorem readStore_eq_ok_iff {value : Json} {kind : StoreKind} : readStore value = .ok kind ↔
    ∃ text, value = .text text ∧
      Text.lower (String.ofList (Text.strip text.toList)) = kind.name := by
  cases value with
  | text text =>
    simp only [readStore, readText, Json.text.injEq, exists_eq_left']
    dsimp only [bind, Except.bind]
    rw [← find_kind_eq_some_iff]
    generalize List.find? _ _ = found
    cases found <;> simp [pure, Except.pure]
  | _ => exact iff_of_false nofun nofun

/-- The store is the default one, or the one that is named. -/
theorem reads_store_iff {given : String → Option Json} {name : String} {kind : StoreKind} :
    Reads given name readStore .table kind ↔ (given name = none ∧ kind = .table) ∨
      ∃ text, given name = some (.text text) ∧
        Text.lower (String.ofList (Text.strip text.toList)) = kind.name := by
  unfold Reads
  cases given name with
  | none => simp
  | some value => simp [readStore_eq_ok_iff]

/-! ### All fields -/

/-- Every field has the value that is read for it, or its default. -/
structure Parsed (given : String → Option Json) (s : Settings) : Prop where
  debug : Reads given "debug" readBool false s.debug
  logLevel : Reads given "log_level" readText "INFO" s.logLevel
  apiBaseUrl : Reads given "api_base_url" readAddress "http://localhost:8080" s.apiBaseUrl
  requestTimeout :
    Reads given "request_timeout" readReal (.ofDecimal false 10 0) s.requestTimeout
  loginUrl : Reads given "login_url" readText "/auth/login" s.loginUrl
  tokenStore : (given "token_store" = none ∧ s.tokenStore = .table) ∨
    ∃ text, given "token_store" = some (.text text) ∧
      Text.lower (String.ofList (Text.strip text.toList)) = s.tokenStore.name
  tokenStoreUrl :
    Reads given "token_store_url" (fun v => some <$> readText v) none s.tokenStoreUrl
  encodeStorage : Reads given "encode_storage" readBool true s.encodeStorage
  maxAttempts : Reads given "resolve_max_attempts" readWhole 3 s.maxAttempts
  stagger : Reads given "resolve_stagger_seconds" readReal (.ofDecimal false 1 (-1)) s.stagger
  backoff : Reads given "resolve_backoff_seconds" readReal (.ofDecimal false 2 (-1)) s.backoff
  maxConcurrency : Reads given "resolve_max_concurrency" readWhole 8 s.maxConcurrency

/-- The fields in the order in which they are reported, each with what it refuses. -/
def readers : List (String × (Json → Option Refused)) :=
  [("debug", refusal readBool), ("log_level", refusal readText),
    ("api_base_url", refusal readAddress), ("request_timeout", refusal readReal),
    ("login_url", refusal readText), ("token_store", refusal readStore),
    ("token_store_url", refusal readText), ("encode_storage", refusal readBool),
    ("resolve_max_attempts", refusal readWhole), ("resolve_stagger_seconds", refusal readReal),
    ("resolve_backoff_seconds", refusal readReal), ("resolve_max_concurrency", refusal readWhole)]

/-- Every field whose value is refused, with the reason. -/
def refusedFields (given : String → Option Json) : List Issue :=
  readers.flatMap fun reader => (refusedField given reader.1 reader.2).toList

section All

variable {given : String → Option Json}

theorem mem_refusedFields {issue : Issue} : issue ∈ refusedFields given ↔
    ∃ name value refuses, (name, refuses) ∈ readers ∧ given name = some value ∧
      refuses value = some issue.cause ∧ issue.field = some name := by
  unfold refusedFields refusedField
  rw [List.mem_flatMap]
  constructor
  · rintro ⟨⟨name, refuses⟩, hreader, hissue⟩
    obtain ⟨cause, hcause, rfl⟩ := Option.map_eq_some_iff.mp (Option.mem_toList.mp hissue)
    obtain ⟨value, hvalue, hrefuses⟩ := Option.bind_eq_some_iff.mp hcause
    exact ⟨name, value, refuses, hreader, hvalue, hrefuses, rfl⟩
  · rintro ⟨name, value, refuses, hreader, hvalue, hrefuses, hfield⟩
    refine ⟨(name, refuses), hreader, ?_⟩
    obtain ⟨field, cause⟩ := issue
    cases hfield
    simp [hvalue, hrefuses]

theorem ofFields_eq_fine_iff {s : Settings} : ofFields given = .fine s ↔ Parsed given s := by
  constructor
  · -- from the last field to the first, as the fields were put together
    intro h
    obtain ⟨_, _, h, hmaxConcurrency, _⟩ := Checked.and_eq_fine_iff.mp h
    obtain ⟨_, _, h, hbackoff, _⟩ := Checked.and_eq_fine_iff.mp h
    obtain ⟨_, _, h, hstagger, _⟩ := Checked.and_eq_fine_iff.mp h
    obtain ⟨_, _, h, hmaxAttempts, _⟩ := Checked.and_eq_fine_iff.mp h
    obtain ⟨_, _, h, hencodeStorage, _⟩ := Checked.and_eq_fine_iff.mp h
    obtain ⟨_, _, h, htokenStoreUrl, _⟩ := Checked.and_eq_fine_iff.mp h
    obtain ⟨_, _, h, htokenStore, _⟩ := Checked.and_eq_fine_iff.mp h
    obtain ⟨_, _, h, hloginUrl, _⟩ := Checked.and_eq_fine_iff.mp h
    obtain ⟨_, _, h, hrequestTimeout, _⟩ := Checked.and_eq_fine_iff.mp h
    obtain ⟨_, _, h, hapiBaseUrl, _⟩ := Checked.and_eq_fine_iff.mp h
    obtain ⟨_, _, h, hlogLevel, _⟩ := Checked.and_eq_fine_iff.mp h
    obtain ⟨_, _, h, hdebug, _⟩ := Checked.and_eq_fine_iff.mp h
    cases h
    subst_vars
    exact ⟨field_eq_fine_iff.mp hdebug, field_eq_fine_iff.mp hlogLevel,
      field_eq_fine_iff.mp hapiBaseUrl, field_eq_fine_iff.mp hrequestTimeout,
      field_eq_fine_iff.mp hloginUrl, reads_store_iff.mp (field_eq_fine_iff.mp htokenStore),
      field_eq_fine_iff.mp htokenStoreUrl, field_eq_fine_iff.mp hencodeStorage,
      field_eq_fine_iff.mp hmaxAttempts, field_eq_fine_iff.mp hstagger,
      field_eq_fine_iff.mp hbackoff, field_eq_fine_iff.mp hmaxConcurrency⟩
  · intro h
    simp only [ofFields, field_eq_fine_iff.mpr h.debug, field_eq_fine_iff.mpr h.logLevel,
      field_eq_fine_iff.mpr h.apiBaseUrl, field_eq_fine_iff.mpr h.requestTimeout,
      field_eq_fine_iff.mpr h.loginUrl, field_eq_fine_iff.mpr (reads_store_iff.mpr h.tokenStore),
      field_eq_fine_iff.mpr h.tokenStoreUrl, field_eq_fine_iff.mpr h.encodeStorage,
      field_eq_fine_iff.mpr h.maxAttempts, field_eq_fine_iff.mpr h.stagger,
      field_eq_fine_iff.mpr h.backoff, field_eq_fine_iff.mpr h.maxConcurrency, Checked.and]

theorem issues_ofFields : (ofFields given).issues = refusedFields given := by
  simp only [ofFields, Checked.issues_and, issues_field, refusal_map, refusedFields, readers,
    List.flatMap_cons, List.flatMap_nil, List.append_nil, List.append_assoc]
  rfl

theorem ofFields_justified : (ofFields given).Justified := by
  unfold ofFields
  repeat' apply Checked.Justified.and
  all_goals first | exact field_justified | exact Checked.Justified.fine _

end All

end AdminConsole.Settings
