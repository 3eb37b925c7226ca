import AdminConsole.Http.Exchange
import AdminConsole.Proofs.Json.Suffixes
import AdminConsole.Proofs.Json.RoundTrip
import AdminConsole.Proofs.Number.Exact

/-!
What readers bring. Every value that is read has each name of an object once, and its whole numbers
are short enough to be written again; so what was read once can be stored, and read back.
-/

namespace AdminConsole

namespace Whole

theorem foldl_lt {ds : List Nat} (h : ∀ d ∈ ds, d < 10) {n k : Nat} (hn : n < pow10 k) :
    ds.foldl (fun n d => n * 10 + d) n < pow10 (k + ds.length) := by
  induction ds generalizing n k with
  | nil => exact hn
  | cons d ds ih =>
    have hd : d < 10 := h d List.mem_cons_self
    have hsucc : pow10 (k + 1) = pow10 k * 10 := pow10_add k 1
    have hnext : n * 10 + d < pow10 (k + 1) := by omega
    have hrest := ih (fun d hd => h d (List.mem_cons_of_mem _ hd)) hnext
    rw [List.foldl_cons, List.length_cons, Nat.add_comm ds.length 1, ← Nat.add_assoc]
    exact hrest

/-- Digits stand for a number below the power of ten with as many zeros. -/
theorem ofDigits_lt {ds : List Nat} (h : ∀ d ∈ ds, d < 10) : ofDigits ds < pow10 ds.length := by
  have hlt := foldl_lt h (n := 0) (k := 0) (by decide)
  rwa [Nat.zero_add] at hlt

end Whole

namespace Json

/-- A value as readers bring it. -/
structure Readable (v : Json) : Prop where
  names : v.distinctNames = true
  digits : v.withinDigits = true

theorem readable_list {items : List Json} :
    (Json.list items).Readable ↔ ∀ v ∈ items, v.Readable := by
  induction items with
  | nil => exact ⟨fun _ => by simp, fun _ => ⟨rfl, rfl⟩⟩
  | cons v items ih =>
    rw [List.forall_mem_cons, ← ih]
    constructor
    · rintro ⟨hnames, hdigits⟩
      simp only [distinctNames, distinctNamesItems, withinDigits, withinDigitsItems,
        Bool.and_eq_true] at hnames hdigits
      exact ⟨⟨hnames.1, hdigits.1⟩, hnames.2, hdigits.2⟩
    · rintro ⟨⟨hnames, hdigits⟩, hnames', hdigits'⟩
      simp only [distinctNames, withinDigits] at hnames' hdigits'
      refine ⟨?_, ?_⟩
      · simp only [distinctNames, distinctNamesItems, hnames, hnames', Bool.and_self]
      · simp only [withinDigits, withinDigitsItems, hdigits, hdigits', Bool.and_self]

theorem readable_entries {entries : List (String × Json)} :
    (distinctNamesEntries entries = true ∧ withinDigitsEntries entries = true) ↔
      ∀ entry ∈ entries, entry.2.Readable := by
  induction entries with
  | nil => simp [distinctNamesEntries, withinDigitsEntries]
  | cons entry entries ih =>
    obtain ⟨name, v⟩ := entry
    rw [List.forall_mem_cons, ← ih]
    simp only [distinctNamesEntries, withinDigitsEntries, Bool.and_eq_true]
    constructor
    · rintro ⟨⟨hnames, hnames'⟩, hdigits, hdigits'⟩
      exact ⟨⟨hnames, hdigits⟩, hnames', hdigits'⟩
    · rintro ⟨⟨hnames, hdigits⟩, hnames', hdigits'⟩
      exact ⟨⟨hnames, hnames'⟩, hdigits, hdigits'⟩

theorem readable_object {entries : Entries Json} : (Json.object entries).Readable ↔
    (Entries.names entries).Nodup ∧ ∀ entry ∈ entries, entry.2.Readable := by
  rw [← readable_entries]
  constructor
  · rintro ⟨hnames, hdigits⟩
    simp only [distinctNames, Bool.and_eq_true, decide_eq_true_eq] at hnames
    exact ⟨hnames.1, hnames.2, hdigits⟩
  · rintro ⟨hnodup, hnames, hdigits⟩
    refine ⟨?_, hdigits⟩
    simp only [distinctNames, hnodup, decide_true, hnames, Bool.and_self]

/-- Writing a value over the entries of an object leaves them readable. -/
theorem Readable.put {entries : Entries Json} {v : Json} (h : (Json.object entries).Readable)
    (name : String) (hv : v.Readable) : (Json.object (Entries.put name v entries)).Readable := by
  obtain ⟨hnodup, hall⟩ := readable_object.mp h
  refine readable_object.mpr ⟨Entries.nodup_put hnodup name v, fun entry hentry => ?_⟩
  rcases Entries.mem_put hentry with hold | rfl
  · exact hall entry hold
  · exact hv

theorem Readable.get? {entries : Entries Json} {name : String} {v : Json}
    (h : (Json.object entries).Readable) (hget : Entries.get? name entries = some v) : v.Readable :=
  (readable_object.mp h).2 _ (Entries.mem_of_get? hget)

theorem withinDigits_of_lt {n : Int} (h : n.natAbs < pow2 1024) :
    (Json.number (.whole n)).withinDigits = true := by
  rw [withinDigits_iff]
  calc n.natAbs < pow2 1024 := h
    _ ≤ pow10 311 := Binary64.pow2_le_pow10
    _ ≤ pow10 digitLimit := pow10_le (by decide)

/-- A whole number of few digits, with either sign, is readable. -/
theorem readable_signed {ds : List Nat} (h : ∀ d ∈ ds, d < 10) (hshort : ds.length ≤ digitLimit)
    (negative : Bool) : (Json.number (.whole
      (if negative then -(Whole.ofDigits ds : Int) else Whole.ofDigits ds))).Readable := by
  refine ⟨rfl, withinDigits_iff.mpr ?_⟩
  have hsize : (if negative then -(Whole.ofDigits ds : Int) else Whole.ofDigits ds).natAbs =
      Whole.ofDigits ds := by
    split
    · rw [Int.natAbs_neg, Int.natAbs_natCast]
    · rw [Int.natAbs_natCast]
  rw [hsize]
  exact Nat.lt_of_lt_of_le (Whole.ofDigits_lt h) (pow10_le hshort)

/-! ### Readers -/

section

variable {α β : Type} {P : α → Prop} {Q : β → Prop}

/-- What a reader brings has a property. -/
def Yields (P : α → Prop) : Except ReadError (α × List Char) → Prop
  | .ok found => P found.1
  | .error _ => True

theorem Yields.bind {first : Except ReadError (α × List Char)}
    {next : α × List Char → Except ReadError (β × List Char)} (h : Yields P first)
    (hnext : ∀ a rest, P a → Yields Q (next (a, rest))) : Yields Q (first >>= next) := by
  match first with
  | .ok (a, rest) => exact hnext a rest h
  | .error _ => trivial

theorem yields_any (result : Except ReadError (α × List Char)) : Yields (fun _ => True) result := by
  match result with
  | .ok _ => trivial
  | .error _ => trivial

end

def charValue (c : Char) : Nat := c.toNat - '0'.toNat

theorem charValue_lt {c : Char} (h : c.isDigit = true) : charValue c < 10 := by
  simp only [Char.isDigit, Bool.and_eq_true, decide_eq_true_eq, UInt32.le_iff_toNat_le] at h
  have hlow : ('9' : Char).val.toNat = 57 := rfl
  have hzero : ('0' : Char).toNat = 48 := rfl
  have hown : c.val.toNat = c.toNat := rfl
  unfold charValue
  omega

theorem ofDigitChars_eq (digits : List Char) :
    Nat.ofDigitChars 10 digits 0 = Whole.ofDigits (digits.map charValue) := by
  simp only [Nat.ofDigitChars, Whole.ofDigits, List.foldl_map, charValue, Nat.mul_comm]

theorem yields_readUnsigned (start : List Char) (negative : Bool) (cs : List Char) :
    Yields (fun n => (Json.number n).Readable) (readUnsigned start negative cs) := by
  unfold readUnsigned
  split
  · trivial
  · rename_i digits rest hwhole
    obtain ⟨-, hdigits⟩ := wholeDigits_some hwhole
    dsimp only
    split
    · split
      · trivial
      · rename_i hshort
        simp only [Yields, ofDigitChars_eq]
        apply readable_signed
        · intro d hd
          obtain ⟨c, hc, rfl⟩ := List.mem_map.mp hd
          exact charValue_lt (hdigits c hc)
        · rw [List.length_map]
          exact Nat.le_of_not_lt hshort
    · exact ⟨rfl, rfl⟩

theorem yields_readNumber (cs : List Char) :
    Yields (fun n => (Json.number n).Readable) (readNumber cs) := by
  unfold readNumber
  split
  · exact yields_readUnsigned _ _ _
  · exact yields_readUnsigned _ _ _

theorem readWord?_readable {cs rest : List Char} {v : Json} (h : readWord? cs = some (v, rest)) :
    v.Readable := by
  obtain ⟨entry, hfind, heq⟩ := Option.map_eq_some_iff.mp h
  cases heq
  have hwords : ∀ entry ∈ words, entry.2.distinctNames = true ∧ entry.2.withinDigits = true := by
    decide
  exact ⟨(hwords entry (List.mem_of_find?_eq_some hfind)).1,
    (hwords entry (List.mem_of_find?_eq_some hfind)).2⟩

theorem yields_readValue_succ {fuel : Nat}
    (hitems : ∀ cs, Yields (fun items => ∀ v ∈ items, v.Readable) (readItems fuel cs))
    (hentries : ∀ sofar cs, (Json.object sofar).Readable →
      Yields (fun entries => (Json.object entries).Readable) (readEntries fuel sofar cs))
    (cs : List Char) : Yields Readable (readValue (fuel + 1) cs) := by
  unfold readValue
  split
  · exact (yields_any _).bind fun _ _ _ => ⟨rfl, rfl⟩
  · split
    · exact ⟨rfl, rfl⟩
    · exact (hitems _).bind fun _ _ hread => readable_list.mpr hread
  · split
    · exact ⟨rfl, rfl⟩
    · exact (hentries _ _ ⟨rfl, rfl⟩).bind fun _ _ hread => hread
  · split
    · rename_i found hword
      exact readWord?_readable hword
    · exact (yields_readNumber _).bind fun _ _ hread => hread

theorem yields_readItems_succ {fuel : Nat} (hvalue : ∀ cs, Yields Readable (readValue fuel cs))
    (hitems : ∀ cs, Yields (fun items => ∀ v ∈ items, v.Readable) (readItems fuel cs))
    (cs : List Char) :
    Yields (fun items => ∀ v ∈ items, v.Readable) (readItems (fuel + 1) cs) := by
  rw [readItems]
  refine (hvalue cs).bind fun item rest hitem => ?_
  dsimp only
  split
  · exact List.forall_mem_singleton.mpr hitem
  · exact (hitems _).bind fun _ _ hmore => List.forall_mem_cons.mpr ⟨hitem, hmore⟩
  · trivial

theorem yields_readEntries_succ {fuel : Nat} (hvalue : ∀ cs, Yields Readable (readValue fuel cs))
    (hentries : ∀ sofar cs, (Json.object sofar).Readable →
      Yields (fun entries => (Json.object entries).Readable) (readEntries fuel sofar cs))
    (sofar : Entries Json) (cs : List Char) (hsofar : (Json.object sofar).Readable) :
    Yields (fun entries => (Json.object entries).Readable) (readEntries (fuel + 1) sofar cs) := by
  unfold readEntries
  split
  · refine (yields_any _).bind fun name rest _ => ?_
    dsimp only
    split
    · refine (hvalue _).bind fun value rest hv => ?_
      have hput := hsofar.put name hv
      dsimp only
      split
      · exact hput
      · exact hentries _ _ hput
      · trivial
    · trivial
  · trivial

/-- By induction on the fuel, for all three readers at once, since they call each other. -/
theorem yields_readers (fuel : Nat) : (∀ cs, Yields Readable (readValue fuel cs)) ∧
    (∀ cs, Yields (fun items => ∀ v ∈ items, v.Readable) (readItems fuel cs)) ∧
      ∀ sofar cs, (Json.object sofar).Readable →
        Yields (fun entries => (Json.object entries).Readable) (readEntries fuel sofar cs) := by
  induction fuel with
  | zero => exact ⟨fun _ => trivial, fun _ => trivial, fun _ _ _ => trivial⟩
  | succ fuel ih =>
    obtain ⟨hvalue, hitems, hentries⟩ := ih
    exact ⟨yields_readValue_succ hitems hentries, yields_readItems_succ hvalue hitems,
      yields_readEntries_succ hvalue hentries⟩

/-- Every value that is read has each name of an object once, and no whole number in it is too long
to be written. -/
theorem readable_of_read {cs : List Char} {v : Json} (h : read cs = .ok v) : v.Readable := by
  have hyields := (yields_readers (fuelFor cs)).1 (skipSpace cs)
  unfold read at h
  split at h
  · cases h
  · generalize readValue (fuelFor cs) (skipSpace cs) = result at h hyields
    match result with
    | .ok (value, rest) =>
      simp only [bind, Except.bind] at h
      split at h <;> cases h
      exact hyields
    | .error _ => cases h

end Json

/-! ### Whole numbers -/

namespace Whole

theorem digitValue?_lt {c : Char} {d : Nat} (h : Text.digitValue? c = some d) : d < 10 := by
  unfold Text.digitValue? at h
  dsimp only at h
  split at h
  · split at h <;> cases h
    omega
  · obtain ⟨first, hfind, rfl⟩ := Option.map_eq_some_iff.mp h
    have hrange := List.find?_some hfind
    simp only [Bool.and_eq_true, decide_eq_true_eq] at hrange
    omega

theorem digits_lt {digit : Bool} {cs rest : List Char} {ds : List Nat}
    (h : digits digit cs = some (ds, rest)) : ∀ d ∈ ds, d < 10 := by
  induction cs generalizing digit ds rest with
  | nil =>
    simp only [digits] at h
    split at h <;> cases h
    simp
  | cons c cs ih =>
    simp only [digits] at h
    split at h
    · rename_i d hd
      obtain ⟨⟨more, after⟩, hmore, heq⟩ := Option.map_eq_some_iff.mp h
      cases heq
      exact List.forall_mem_cons.mpr ⟨digitValue?_lt hd, ih hmore⟩
    · split at h
      · split at h
        · exact ih h
        · cases h
      · split at h <;> cases h
        simp

theorem readable_ofText {s : String} {n : Int} (h : ofText s = .ok n) :
    (Json.number (.whole n)).Readable := by
  unfold ofText at h
  dsimp only at h
  split at h
  · cases h
  · rename_i ds rest hdigits
    split at h
    · cases h
    · rename_i hshort
      split at h <;> cases h
      exact Json.readable_signed (digits_lt hdigits) (Nat.le_of_not_lt hshort) _

end Whole

namespace Json

/-- A number that can be written is cut to one that can be written. -/
theorem withinDigits_truncate {m : Number} {n : Int} (h : (Json.number m).withinDigits = true)
    (htruncate : m.truncate = .ok n) : (Json.number (.whole n)).withinDigits = true := by
  cases m with
  | whole k =>
    cases htruncate
    exact h
  | real x =>
    have hcut : x.truncate? = some n := by
      cases x with
      | nan => cases htruncate
      | infinite negative => cases htruncate
      | finite negative rank bounded =>
        cases htruncate
        rfl
    exact withinDigits_of_lt (Binary64.truncate?_lt hcut)

/-- A readable value that stands for a whole number stands for one that can be written. -/
theorem Readable.toWhole {v : Json} (h : v.Readable) {n : Int} (hwhole : v.toWhole = .ok n) :
    (Json.number (.whole n)).withinDigits = true := by
  cases v with
  | bool b =>
    cases hwhole
    cases b <;> decide
  | number m =>
    refine withinDigits_truncate h.digits (n := n) ?_
    simp only [Json.toWhole] at hwhole
    cases htruncate : m.truncate with
    | error cause =>
      rw [htruncate] at hwhole
      cases hwhole
    | ok k =>
      rw [htruncate] at hwhole
      cases hwhole
      rfl
  | text s => exact (Whole.readable_ofText hwhole).digits
  | _ => cases hwhole

end Json

/-- An entry that is read yields a readable value. -/
theorem Entry.readable_of_decode {entry : String} {v : Json} (h : decode entry = .ok v) :
    v.Readable := by
  unfold decode at h
  split at h
  · cases h
  · split at h
    · rename_i hread
      cases h
      exact Json.readable_of_read hread
    · cases h
    · cases h

/-- A body given as a value has to be one that a text can have. -/
def Body.Readable : Body → Prop
  | .json value => value.Readable
  | .bytes _ => True

theorem Body.Readable.read {body : Body} {v : Json} (h : body.Readable) (hread : body.read = .ok v) :
    v.Readable := by
  cases body with
  | json value =>
    cases hread
    exact h
  | bytes data =>
    simp only [Body.read] at hread
    split at hread
    · cases hread
    · split at hread
      · rename_i hvalue
        cases hread
        split at hvalue
        · cases hvalue
        · exact Json.readable_of_read hvalue
      · cases hread

end AdminConsole
