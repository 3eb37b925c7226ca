/-!
Ordered entries: names with values, each name once. Writing a name that is present keeps its place
and changes its value; a new name goes to the end.
-/

namespace AdminConsole

abbrev Entries (α : Type) := List (String × α)

namespace Entries

variable {α : Type}

def get? (name : String) : Entries α → Option α
  | [] => none
  | (key, value) :: rest => if key = name then some value else get? name rest

def put (name : String) (value : α) : Entries α → Entries α
  | [] => [(name, value)]
  | (key, old) :: rest =>
    if key = name then (key, value) :: rest else (key, old) :: put name value rest

def erase (name : String) (entries : Entries α) : Entries α :=
  entries.filter fun entry => entry.1 ≠ name

def names (entries : Entries α) : List String := entries.map Prod.fst

def overlay (below above : Entries α) : Entries α :=
  above.foldl (fun acc entry => put entry.1 entry.2 acc) below

/-- The entries of a list in which a name may be written more than once. -/
def ofList (entries : List (String × α)) : Entries α := overlay [] entries

theorem get?_put_self (name : String) (value : α) (entries : Entries α) :
    get? name (put name value entries) = some value := by
  induction entries with
  | nil => simp [put, get?]
  | cons entry rest ih =>
    obtain ⟨key, old⟩ := entry
    by_cases h : key = name <;> simp [put, get?, h, ih]

theorem get?_put_of_ne {name other : String} (h : other ≠ name) (value : α)
    (entries : Entries α) : get? other (put name value entries) = get? other entries := by
  induction entries with
  | nil => simp [put, get?, Ne.symm h]
  | cons entry rest ih =>
    obtain ⟨key, old⟩ := entry
    by_cases hk : key = name
    · subst hk
      simp [put, get?, Ne.symm h]
    · by_cases ho : key = other
      · subst ho
        simp [put, get?, hk]
      · simp [put, get?, hk, ho, ih]

theorem get?_erase_self (name : String) (entries : Entries α) :
    get? name (erase name entries) = none := by
  induction entries with
  | nil => rfl
  | cons entry rest ih =>
    obtain ⟨key, old⟩ := entry
    by_cases h : key = name
    · simpa [erase, h] using ih
    · simpa [erase, h, get?] using ih

theorem get?_erase_of_ne {name other : String} (h : other ≠ name) (entries : Entries α) :
    get? other (erase name entries) = get? other entries := by
  induction entries with
  | nil => rfl
  | cons entry rest ih =>
    obtain ⟨key, old⟩ := entry
    by_cases hk : key = name
    · subst hk
      simpa [erase, get?, Ne.symm h] using ih
    · by_cases ho : key = other
      · subst ho
        simp [erase, hk, get?]
      · simpa [erase, hk, ho, get?] using ih

theorem mem_of_get? {name : String} {value : α} {entries : Entries α}
    (h : get? name entries = some value) : (name, value) ∈ entries := by
  induction entries with
  | nil => cases h
  | cons entry rest ih =>
    obtain ⟨key, old⟩ := entry
    by_cases hkey : key = name
    · simp only [get?, hkey, if_true, Option.some.injEq] at h
      rw [hkey, h]
      exact List.mem_cons_self
    · simp only [get?, hkey, if_false] at h
      exact List.mem_cons_of_mem _ (ih h)

theorem mem_put {name : String} {value : α} {entries : Entries α}
    {entry : String × α} (h : entry ∈ put name value entries) :
    entry ∈ entries ∨ entry = (name, value) := by
  induction entries with
  | nil => exact .inr (List.mem_singleton.mp h)
  | cons first rest ih =>
    obtain ⟨key, old⟩ := first
    by_cases hkey : key = name
    · simp only [put, hkey, if_true] at h
      rcases List.mem_cons.mp h with rfl | h
      · exact .inr rfl
      · exact .inl (List.mem_cons_of_mem _ h)
    · simp only [put, hkey, if_false] at h
      rcases List.mem_cons.mp h with rfl | h
      · exact .inl List.mem_cons_self
      · exact (ih h).imp (List.mem_cons_of_mem _) id

theorem mem_names_iff {name : String} {entries : Entries α} :
    name ∈ names entries ↔ ∃ value, get? name entries = some value := by
  induction entries with
  | nil => simp [get?, names]
  | cons entry rest ih =>
    obtain ⟨key, old⟩ := entry
    by_cases hkey : key = name
    · simp [get?, names, hkey]
    · simpa [get?, names, hkey, Ne.symm hkey] using ih

theorem get?_eq_none_iff {name : String} {entries : Entries α} :
    get? name entries = none ↔ name ∉ names entries := by
  rw [mem_names_iff, ← Option.isSome_iff_exists, Option.not_isSome_iff_eq_none]

theorem get?_append (name : String) (first second : Entries α) :
    get? name (first ++ second) = (get? name first).or (get? name second) := by
  induction first with
  | nil => rfl
  | cons entry rest ih =>
    obtain ⟨key, old⟩ := entry
    by_cases hkey : key = name
    · simp [get?, hkey]
    · simpa [get?, hkey] using ih

theorem get?_filter_name (p : String → Bool) (name : String) (entries : Entries α) :
    get? name (entries.filter fun entry => p entry.1) =
      if p name then get? name entries else none := by
  induction entries with
  | nil => simp [get?]
  | cons entry rest ih =>
    obtain ⟨key, old⟩ := entry
    by_cases hkey : key = name
    · subst hkey
      cases hp : p key with
      | true => simp [hp, get?]
      | false => simpa [hp] using ih
    · cases hp : p key with
      | true => simpa [hp, get?, hkey] using ih
      | false => simpa [hp, get?, hkey] using ih

/-- Where each name is written once, taking out values takes out their names. -/
theorem get?_filter_value (p : α → Bool) (name : String) {entries : Entries α}
    (h : (names entries).Nodup) :
    get? name (entries.filter fun entry => p entry.2) = (get? name entries).filter p := by
  induction entries with
  | nil => rfl
  | cons entry rest ih =>
    obtain ⟨key, old⟩ := entry
    obtain ⟨hfresh, hrest⟩ := List.nodup_cons.mp h
    by_cases hkey : key = name
    · subst hkey
      have hnone : get? key rest = none := get?_eq_none_iff.mpr hfresh
      cases hp : p old with
      | true => simp [hp, get?, Option.filter]
      | false => simp [hp, get?, Option.filter, ih hrest, hnone]
    · cases hp : p old with
      | true => simpa [hp, get?, hkey] using ih hrest
      | false => simpa [hp, get?, hkey] using ih hrest

theorem mem_names_put {name other : String} {value : α} {entries : Entries α} :
    other ∈ names (put name value entries) ↔ other = name ∨ other ∈ names entries := by
  induction entries with
  | nil => simp [put, names]
  | cons entry rest ih =>
    obtain ⟨key, old⟩ := entry
    by_cases hkey : key = name
    · simp [put, names, hkey]
    · simp only [put, hkey, if_false, names, List.map_cons, List.mem_cons] at ih ⊢
      rw [ih, or_left_comm]

theorem nodup_put {entries : Entries α} (h : (names entries).Nodup) (name : String) (value : α) :
    (names (put name value entries)).Nodup := by
  induction entries with
  | nil => simp [put, names]
  | cons entry rest ih =>
    obtain ⟨key, old⟩ := entry
    obtain ⟨hfresh, hrest⟩ := List.nodup_cons.mp h
    by_cases hkey : key = name
    · simpa [put, hkey, names] using h
    · simp only [put, hkey, if_false, names, List.map_cons, List.nodup_cons]
      exact ⟨fun hmem => (mem_names_put.mp hmem).elim hkey hfresh, ih hrest⟩

theorem get?_map {β : Type} (f : String → α → β) (name : String) (entries : Entries α) :
    get? name (entries.map fun entry => (entry.1, f entry.1 entry.2)) =
      (get? name entries).map (f name) := by
  induction entries with
  | nil => rfl
  | cons entry rest ih =>
    obtain ⟨key, old⟩ := entry
    by_cases hkey : key = name
    · subst hkey
      simp [get?]
    · simpa [get?, hkey] using ih

/-- In overlaid entries the last value for a name counts. -/
theorem get?_overlay (name : String) (below above : Entries α) :
    get? name (overlay below above) =
      ((above.filter fun entry => entry.1 = name).getLast?.map Prod.snd).or (get? name below) := by
  induction above generalizing below with
  | nil => rfl
  | cons entry rest ih =>
    rw [overlay, List.foldl_cons, ← overlay, ih]
    by_cases hname : entry.1 = name
    · subst hname
      rw [get?_put_self, List.filter_cons_of_pos (by simp), List.getLast?_cons]
      cases (rest.filter fun other => other.1 = entry.1).getLast? <;> rfl
    · rw [get?_put_of_ne (Ne.symm hname), List.filter_cons_of_neg (by simpa using hname)]

theorem get?_ofList (name : String) (entries : List (String × α)) :
    get? name (ofList entries) =
      (entries.filter fun entry => entry.1 = name).getLast?.map Prod.snd := by
  rw [ofList, get?_overlay, get?, Option.or_none]

end Entries

end AdminConsole
