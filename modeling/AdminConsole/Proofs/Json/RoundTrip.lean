import AdminConsole.Proofs.Json.Numerals
import AdminConsole.Proofs.Json.Strings

/-!
Compact text. A value whose objects have each name once is read back from its compact text; what
has to follow a value is only that it cannot belong to a numeral.
-/

namespace AdminConsole

namespace Entries

variable {α : Type}

/-- A new name goes to the end. -/
theorem put_new {name : String} {entries : Entries α} (h : name ∉ names entries) (value : α) :
    put name value entries = entries ++ [(name, value)] := by
  induction entries with
  | nil => rfl
  | cons entry rest ih =>
    obtain ⟨key, old⟩ := entry
    rw [names, List.map_cons, List.mem_cons, not_or] at h
    rw [put, if_neg (Ne.symm h.1), ih h.2, List.cons_append]

theorem fresh_of_nodup {name : String} {value : α} {above below : Entries α}
    (h : (names (above ++ (name, value) :: below)).Nodup) : name ∉ names above := by
  rw [names, List.map_append, List.map_cons, List.nodup_append] at h
  exact fun hmem => h.2.2 name hmem name List.mem_cons_self rfl

end Entries

namespace Json

mutual

/-- Whether every object in the value has its names once. -/
def distinctNames : Json → Bool
  | .list items => distinctNamesItems items
  | .object entries => decide (Entries.names entries).Nodup && distinctNamesEntries entries
  | _ => true

def distinctNamesItems : List Json → Bool
  | [] => true
  | item :: rest => distinctNames item && distinctNamesItems rest

def distinctNamesEntries : List (String × Json) → Bool
  | [] => true
  | (_, value) :: rest => distinctNames value && distinctNamesEntries rest

end

/-! ### How a written value begins -/

/-- A character that a value may begin with. -/
def Starts (c : Char) : Prop := isSpace c = false ∧ c ≠ ']' ∧ c ≠ '\uFEFF'

instance (c : Char) : Decidable (Starts c) := inferInstanceAs (Decidable (_ ∧ _ ∧ _))

theorem starts_digit {c : Char} (h : c.isDigit = true) : Starts c := by
  have hspace : isSpace c = false := by
    simp only [isSpace, ne_of_digit h (show ' '.isDigit = false by decide),
      ne_of_digit h (show '\t'.isDigit = false by decide),
      ne_of_digit h (show '\n'.isDigit = false by decide),
      ne_of_digit h (show '\r'.isDigit = false by decide), decide_false, Bool.or_self]
  exact ⟨hspace, ne_of_digit h rfl, ne_of_digit h rfl⟩

theorem starts_writeNumber (n : Number) : ∃ c more, writeNumber n = c :: more ∧ Starts c := by
  have hsigned : ∀ (negative : Prop) [Decidable negative] (cs : List Char),
      (∃ c more, cs = c :: more ∧ c.isDigit = true) →
      ∃ c more, (if negative then '-' :: cs else cs) = c :: more ∧ Starts c := by
    rintro negative _ _ ⟨c, more, rfl, hc⟩
    split
    · exact ⟨'-', _, rfl, by decide⟩
    · exact ⟨c, more, rfl, starts_digit hc⟩
  cases n with
  | whole n =>
    have hhead := (whole_toDigits n.natAbs).head []
    rw [List.append_nil] at hhead
    exact hsigned _ _ hhead
  | real x =>
    cases x with
    | nan => exact ⟨'N', _, rfl, by decide⟩
    | infinite negative =>
      cases negative with
      | false => exact ⟨'I', _, rfl, by decide⟩
      | true => exact ⟨'-', _, rfl, by decide⟩
    | finite negative rank bounded =>
      rw [writeNumber_finite]
      exact hsigned _ _ (numeral_decimal _).head

theorem starts_writeAt (layout : Layout) (depth : Nat) (v : Json) :
    ∃ c more, writeAt layout depth v = c :: more ∧ Starts c := by
  cases v with
  | null => exact ⟨'n', _, rfl, by decide⟩
  | bool b =>
    cases b with
    | false => exact ⟨'f', _, rfl, by decide⟩
    | true => exact ⟨'t', _, rfl, by decide⟩
  | number n =>
    rw [writeAt]
    exact starts_writeNumber n
  | text s => exact ⟨'"', _, by rw [writeAt, writeText, List.cons_append], by decide⟩
  | list items =>
    cases items with
    | nil => exact ⟨'[', _, rfl, by decide⟩
    | cons item items => exact ⟨'[', _, by rw [writeAt]; rfl, by decide⟩
  | object entries =>
    cases entries with
    | nil => exact ⟨'\x7b', _, rfl, by decide⟩
    | cons entry entries =>
      obtain ⟨name, value⟩ := entry
      exact ⟨'\x7b', _, by rw [writeAt]; rfl, by decide⟩

theorem skipSpace_cons {c : Char} (h : isSpace c = false) (rest : List Char) :
    skipSpace (c :: rest) = c :: rest := by
  simp [skipSpace, h]

theorem skipSpace_writeAt (layout : Layout) (depth : Nat) (v : Json) (rest : List Char) :
    skipSpace (writeAt layout depth v ++ rest) = writeAt layout depth v ++ rest := by
  obtain ⟨c, more, heq, hstarts⟩ := starts_writeAt layout depth v
  rw [heq, List.cons_append, skipSpace_cons hstarts.1]

/-! ### Lists and objects, given their values -/

/-- The compact text of a value is read as the value. -/
def ReadsBack (v : Json) : Prop :=
  ∀ depth rest fuel, Ends rest → (writeAt .compact depth v).length < fuel →
    readValue fuel (writeAt .compact depth v ++ rest) = .ok (v, rest)

theorem ends_items (depth : Nat) (items : List Json) (rest : List Char) :
    Ends (writeItems .compact depth items ++ ']' :: rest) := by
  intro c hc
  cases items with
  | nil =>
    cases hc
    decide
  | cons item items =>
    rw [writeItems] at hc
    cases hc
    decide

theorem ends_entries (depth : Nat) (entries : List (String × Json)) (rest : List Char) :
    Ends (writeEntries .compact depth entries ++ '\x7d' :: rest) := by
  intro c hc
  cases entries with
  | nil =>
    cases hc
    decide
  | cons entry entries =>
    obtain ⟨name, value⟩ := entry
    rw [writeEntries] at hc
    cases hc
    decide

theorem readItems_writeItems (depth : Nat) (item : Json) (items : List Json) (rest : List Char)
    (fuel : Nat) (h : ∀ v ∈ item :: items, ReadsBack v)
    (hfuel : (writeAt .compact depth item ++ writeItems .compact depth items).length + 1 < fuel) :
    readItems fuel (writeAt .compact depth item ++
      (writeItems .compact depth items ++ ']' :: rest)) = .ok (item :: items, rest) := by
  induction items generalizing item fuel with
  | nil =>
    obtain ⟨fuel, rfl⟩ := Nat.exists_eq_add_one_of_ne_zero (show fuel ≠ 0 by omega)
    rw [List.length_append] at hfuel
    have hitem := h item List.mem_cons_self depth _ fuel (ends_items depth [] rest) (by omega)
    simp only [readItems, hitem]
    rfl
  | cons next items ih =>
    obtain ⟨fuel, rfl⟩ := Nat.exists_eq_add_one_of_ne_zero (show fuel ≠ 0 by omega)
    have hitem := h item List.mem_cons_self depth _ fuel (ends_items depth (next :: items) rest)
    have hmore := ih next fuel fun v hv => h v (List.mem_cons_of_mem _ hv)
    have htext : writeItems .compact depth (next :: items) =
        ',' :: (writeAt .compact depth next ++ writeItems .compact depth items) := by
      rw [writeItems]
      rfl
    rw [htext, List.length_append, List.length_cons] at hfuel
    rw [htext, List.cons_append, List.append_assoc] at hitem ⊢
    simp only [readItems, hitem (by omega), bind, Except.bind, pure, Except.pure,
      skipSpace_cons (show isSpace ',' = false by decide), skipSpace_writeAt, hmore (by omega)]

theorem writeText_append (asciiOnly : Bool) (s : String) (rest : List Char) :
    writeText asciiOnly s ++ rest =
      '"' :: (s.toList.flatMap (escapeChar asciiOnly) ++ '"' :: rest) := by
  simp [writeText]

theorem readEntries_entry {depth fuel : Nat} {name : String} {value : Json}
    {sofar : List (String × Json)} {after : List Char} (hread : ReadsBack value)
    (hname : name ∉ Entries.names sofar) (hafter : Ends after)
    (hfuel : (writeAt .compact depth value).length < fuel) :
    readEntries (fuel + 1) sofar
        (writeText true name ++ ':' :: (writeAt .compact depth value ++ after)) =
      match skipSpace after with
      | '\x7d' :: rest => .ok (sofar ++ [(name, value)], rest)
      | ',' :: rest => readEntries fuel (sofar ++ [(name, value)]) (skipSpace rest)
      | rest => fail .comma rest := by
  simp only [writeText_append, readEntries, readString_writeText, bind, Except.bind,
    skipSpace_cons (show isSpace ':' = false by decide), skipSpace_writeAt,
    hread depth after fuel hafter hfuel, Entries.put_new hname]
  rfl

theorem readEntries_writeEntries (depth : Nat) (name : String) (value : Json)
    (entries sofar : List (String × Json)) (rest : List Char) (fuel : Nat)
    (h : ∀ entry ∈ (name, value) :: entries, ReadsBack entry.2)
    (hnames : (Entries.names (sofar ++ (name, value) :: entries)).Nodup)
    (hfuel : (writeAt .compact depth value ++ writeEntries .compact depth entries).length + 1 <
      fuel) :
    readEntries fuel sofar (writeText true name ++ ':' :: (writeAt .compact depth value ++
      (writeEntries .compact depth entries ++ '\x7d' :: rest))) =
      .ok (sofar ++ (name, value) :: entries, rest) := by
  induction entries generalizing name value sofar fuel with
  | nil =>
    obtain ⟨fuel, rfl⟩ := Nat.exists_eq_add_one_of_ne_zero (show fuel ≠ 0 by omega)
    have hread : ReadsBack value := h (name, value) List.mem_cons_self
    rw [List.length_append] at hfuel
    rw [readEntries_entry hread (Entries.fresh_of_nodup hnames)
      (ends_entries depth [] rest) (by omega)]
    rfl
  | cons entry entries ih =>
    obtain ⟨next, nextValue⟩ := entry
    obtain ⟨fuel, rfl⟩ := Nat.exists_eq_add_one_of_ne_zero (show fuel ≠ 0 by omega)
    have htext : writeEntries .compact depth ((next, nextValue) :: entries) =
        ',' :: (writeText true next ++ ':' :: (writeAt .compact depth nextValue ++
          writeEntries .compact depth entries)) := by
      rw [writeEntries]
      simp [Layout.compact, Layout.gap]
    have hread : ReadsBack value := h (name, value) List.mem_cons_self
    have hafter := ends_entries depth ((next, nextValue) :: entries) rest
    have hmore := ih next nextValue (sofar ++ [(name, value)]) fuel
      (fun e he => h e (List.mem_cons_of_mem _ he)) (by simpa using hnames)
    rw [htext, List.length_append] at hfuel
    simp only [List.length_cons, List.length_append] at hfuel hmore
    rw [htext] at hafter ⊢
    rw [readEntries_entry hread (Entries.fresh_of_nodup hnames) hafter (by omega)]
    simp only [List.cons_append, List.append_assoc, List.nil_append] at hmore ⊢
    simp only [skipSpace_cons (show isSpace ',' = false by decide)]
    have hquote : ∀ more, skipSpace (writeText true next ++ more) = writeText true next ++ more := by
      intro more
      rw [writeText_append, skipSpace_cons (by decide)]
    rw [hquote, hmore (by omega)]

/-! ### All values -/

theorem readsBack_word {v : Json} {c : Char} {word : List Char} (hquote : c ≠ '"')
    (hbracket : c ≠ '[') (hbrace : c ≠ '\x7b')
    (h : ∀ depth rest, readWord? (writeAt .compact depth v ++ rest) = some (v, rest) ∧
      writeAt .compact depth v = c :: word) : ReadsBack v := by
  intro depth rest fuel _ hfuel
  obtain ⟨fuel, rfl⟩ := Nat.exists_eq_add_one_of_ne_zero (show fuel ≠ 0 by omega)
  obtain ⟨hword, htext⟩ := h depth rest
  rw [htext] at hword ⊢
  exact readValue_word hquote hbracket hbrace hword fuel

theorem readsBack_number {n : Number} (h : (Json.number n).withinDigits = true) :
    ReadsBack (.number n) := by
  intro depth rest fuel hrest hfuel
  obtain ⟨fuel, rfl⟩ := Nat.exists_eq_add_one_of_ne_zero (show fuel ≠ 0 by omega)
  rw [writeAt]
  exact readValue_writeNumber h hrest fuel

theorem readsBack_text (s : String) : ReadsBack (.text s) := by
  intro depth rest fuel _ hfuel
  obtain ⟨fuel, rfl⟩ := Nat.exists_eq_add_one_of_ne_zero (show fuel ≠ 0 by omega)
  have htext : writeAt .compact depth (.text s) = writeText true s := by rw [writeAt]; rfl
  rw [htext, writeText_append, readValue, readString_writeText]
  rfl

theorem readsBack_list {items : List Json} (h : ∀ v ∈ items, ReadsBack v) :
    ReadsBack (.list items) := by
  intro depth rest fuel hrest hfuel
  obtain ⟨fuel, rfl⟩ := Nat.exists_eq_add_one_of_ne_zero (show fuel ≠ 0 by omega)
  cases items with
  | nil => rfl
  | cons item items =>
    have htext : writeAt .compact depth (.list (item :: items)) =
        '[' :: (writeAt .compact (depth + 1) item ++
          (writeItems .compact (depth + 1) items ++ [']'])) := by
      rw [writeAt]
      simp [Layout.compact, Layout.gap]
    obtain ⟨c, more, heq, hstarts⟩ := starts_writeAt .compact (depth + 1) item
    have hitems := readItems_writeItems (depth + 1) item items rest fuel h
    rw [htext] at hfuel ⊢
    simp only [List.length_cons, List.length_append] at hfuel hitems
    simp only [List.cons_append, List.append_assoc, List.nil_append]
    rw [readValue, skipSpace_writeAt]
    rw [heq, List.cons_append] at hitems ⊢
    split
    · rename_i hclose
      exact absurd (List.cons.inj hclose).1 hstarts.2.1
    · rw [hitems (by rw [← heq]; omega)]
      rfl

theorem readsBack_object {entries : List (String × Json)} (h : ∀ entry ∈ entries, ReadsBack entry.2)
    (hnames : (Entries.names entries).Nodup) : ReadsBack (.object entries) := by
  intro depth rest fuel hrest hfuel
  obtain ⟨fuel, rfl⟩ := Nat.exists_eq_add_one_of_ne_zero (show fuel ≠ 0 by omega)
  cases entries with
  | nil => rfl
  | cons entry entries =>
    obtain ⟨name, value⟩ := entry
    have htext : writeAt .compact depth (.object ((name, value) :: entries)) =
        '\x7b' :: (writeText true name ++ ':' :: (writeAt .compact (depth + 1) value ++
          (writeEntries .compact (depth + 1) entries ++ ['\x7d']))) := by
      rw [writeAt]
      simp [Layout.compact, Layout.gap]
    have hentries := readEntries_writeEntries (depth + 1) name value entries [] rest fuel h hnames
    rw [htext] at hfuel ⊢
    simp only [List.length_cons, List.length_append] at hfuel hentries
    simp only [List.cons_append, List.append_assoc, List.nil_append]
    rw [writeText_append] at hentries ⊢
    rw [readValue, skipSpace_cons (by decide)]
    split
    · rename_i hclose
      exact absurd (List.cons.inj hclose).1 (by decide)
    · rw [hentries (by omega)]
      rfl

mutual

theorem readsBack : ∀ v : Json, v.withinDigits = true → v.distinctNames = true → ReadsBack v
  | .null, _, _ => readsBack_word (by decide) (by decide) (by decide) fun _ _ => ⟨rfl, rfl⟩
  | .bool false, _, _ => readsBack_word (by decide) (by decide) (by decide) fun _ _ => ⟨rfl, rfl⟩
  | .bool true, _, _ => readsBack_word (by decide) (by decide) (by decide) fun _ _ => ⟨rfl, rfl⟩
  | .number n, hdigits, _ => readsBack_number hdigits
  | .text s, _, _ => readsBack_text s
  | .list items, hdigits, hnames =>
    readsBack_list (readsBack_items items hdigits hnames)
  | .object entries, hdigits, hnames => by
    rw [distinctNames, Bool.and_eq_true, decide_eq_true_eq] at hnames
    exact readsBack_object (readsBack_entries entries hdigits hnames.2) hnames.1

theorem readsBack_items : ∀ items : List Json, withinDigitsItems items = true →
    distinctNamesItems items = true → ∀ v ∈ items, ReadsBack v
  | [], _, _ => by simp
  | item :: items, hdigits, hnames => by
    rw [withinDigitsItems, Bool.and_eq_true] at hdigits
    rw [distinctNamesItems, Bool.and_eq_true] at hnames
    rw [List.forall_mem_cons]
    exact ⟨readsBack item hdigits.1 hnames.1, readsBack_items items hdigits.2 hnames.2⟩

theorem readsBack_entries : ∀ entries : List (String × Json), withinDigitsEntries entries = true →
    distinctNamesEntries entries = true → ∀ entry ∈ entries, ReadsBack entry.2
  | [], _, _ => by simp
  | (_, value) :: entries, hdigits, hnames => by
    rw [withinDigitsEntries, Bool.and_eq_true] at hdigits
    rw [distinctNamesEntries, Bool.and_eq_true] at hnames
    rw [List.forall_mem_cons]
    exact ⟨readsBack value hdigits.1 hnames.1, readsBack_entries entries hdigits.2 hnames.2⟩

end

/-- A value is read back from its compact text. -/
theorem read_write {v : Json} (hdigits : v.withinDigits = true) (hnames : v.distinctNames = true) :
    read (v.write .compact) = .ok v := by
  have hfuel : (writeAt .compact 0 v).length < fuelFor (writeAt .compact 0 v) := by
    unfold fuelFor
    omega
  have hread := readsBack v hdigits hnames 0 [] _ ends_nil hfuel
  have hskip := skipSpace_writeAt .compact 0 v []
  rw [List.append_nil] at hread hskip
  obtain ⟨c, more, heq, hstarts⟩ := starts_writeAt .compact 0 v
  rw [write]
  unfold read
  split
  · rename_i hmark
    rw [heq] at hmark
    exact absurd (List.cons.inj hmark).1 hstarts.2.2
  · rw [hskip, hread]
    rfl

end Json

end AdminConsole
