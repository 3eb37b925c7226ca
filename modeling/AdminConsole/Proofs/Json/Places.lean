import AdminConsole.Proofs.Json.Fuel
import Mathlib.Logic.Relation

/-!
Where a reading stops at a number. A reader comes to one value of a text after the other, and to
each only when the values in front of it were read. Among the places it comes to, those that begin
a whole number with too many digits are those that make a reading fail for its size.
-/

namespace AdminConsole.Json

/-! ### Numerals that are too long -/

/-- What follows a whole number: no digit, no point before a digit, and no mark of an exponent
before a digit or a sign and a digit. -/
structure Closes (rest : List Char) : Prop where
  digit : ∀ c ∈ rest.head?, c.isDigit = false
  point : ∀ c more, rest = '.' :: c :: more → c.isDigit = false
  mark : ∀ mark more, rest = mark :: more → mark = 'e' ∨ mark = 'E' →
    ∀ c ∈ (Text.sign more).2.head?, c.isDigit = false

/-- A whole number with too many digits begins here. -/
def LongNumeral (count : Nat) (place : List Char) : Prop :=
  ∃ (negative : Bool) (digits rest : List Char),
    place = (if negative then '-' :: (digits ++ rest) else digits ++ rest) ∧ Whole digits ∧
      digits.length = count ∧ digitLimit < count ∧ Closes rest

theorem takeWhile_eq_nil {cs : List Char} :
    cs.takeWhile Char.isDigit = [] ↔ ∀ c ∈ cs.head?, c.isDigit = false := by
  cases cs with
  | nil => simp
  | cons c cs => cases hc : Char.isDigit c <;> simp [hc]

theorem fraction_closes {rest : List Char}
    (h : ∀ c more, rest = '.' :: c :: more → c.isDigit = false) : fraction rest = ([], rest) := by
  unfold fraction
  split
  · rename_i more
    have hnone : more.takeWhile Char.isDigit = [] := by
      refine takeWhile_eq_nil.mpr fun c hc => ?_
      obtain ⟨after, rfl⟩ := List.head?_eq_some_iff.mp hc
      exact h c after rfl
    rw [hnone]
  · rfl

theorem point_of_fraction {rest : List Char} (h : (fraction rest).1 = []) :
    ∀ c more, rest = '.' :: c :: more → c.isDigit = false := by
  rintro c more rfl
  cases hc : Char.isDigit c with
  | false => rfl
  | true => simp [fraction, hc] at h

theorem exponent_closes {rest : List Char}
    (h : ∀ mark more, rest = mark :: more → mark = 'e' ∨ mark = 'E' →
      ∀ c ∈ (Text.sign more).2.head?, c.isDigit = false) : exponent rest = (none, rest) := by
  cases rest with
  | nil => rfl
  | cons mark more =>
    simp only [exponent]
    split
    · rename_i hmark
      rw [takeWhile_eq_nil.mpr (h mark more rfl hmark)]
    · rfl

theorem mark_of_exponent {rest : List Char} (h : (exponent rest).1 = none) :
    ∀ mark more, rest = mark :: more → mark = 'e' ∨ mark = 'E' →
      ∀ c ∈ (Text.sign more).2.head?, c.isDigit = false := by
  rintro mark more rfl hmark
  rw [← takeWhile_eq_nil]
  simp only [exponent, if_pos hmark] at h
  split at h
  · assumption
  · cases h

theorem wholeDigits_whole {cs digits rest : List Char} (h : wholeDigits cs = some (digits, rest)) :
    Whole digits ∧ (1 < digits.length → ∀ c ∈ rest.head?, c.isDigit = false) := by
  have hdigits := (wholeDigits_some h).2
  unfold wholeDigits at h
  split at h
  · cases h
    exact ⟨.zero, fun hlong => absurd hlong (by decide)⟩
  · rename_i hzero
    split at h
    · cases h
    · rename_i hsome
      cases h
      refine ⟨?_, fun _ c hc => ?_⟩
      · cases cs with
        | nil => exact absurd rfl hsome
        | cons c cs =>
          cases hc : Char.isDigit c with
          | false => exact absurd (takeWhile_eq_nil.mpr (by simpa using hc)) hsome
          | true =>
            rw [List.takeWhile_cons_of_pos hc] at hdigits ⊢
            exact .digits hdigits fun hhead => hzero cs (by rw [hhead])
      · have hhead := List.head?_dropWhile_not Char.isDigit cs
        rw [hc] at hhead
        exact hhead

/-- A number fails for its size exactly where a whole number with too many digits begins. -/
theorem readUnsigned_tooManyDigits {start cs : List Char} {negative : Bool} {count : Nat} :
    readUnsigned start negative cs = .error (.tooManyDigits count) ↔
      ∃ digits rest, cs = digits ++ rest ∧ Whole digits ∧ digits.length = count ∧
        digitLimit < count ∧ Closes rest := by
  constructor
  · intro h
    unfold readUnsigned at h
    split at h
    · cases h
    · rename_i digits rest hwhole
      dsimp only at h
      split at h
      · rename_i hplain
        rw [Bool.and_eq_true, List.isEmpty_iff, Option.isNone_iff_eq_none] at hplain
        split at h
        · rename_i hlong
          cases h
          have hfraction := fraction_closes (point_of_fraction hplain.1)
          rw [hfraction] at hplain
          obtain ⟨hdigits, hdigit⟩ := wholeDigits_whole hwhole
          refine ⟨digits, rest, (wholeDigits_some hwhole).1, hdigits, rfl, hlong, ?_⟩
          exact ⟨hdigit (Nat.lt_trans (by decide) hlong), point_of_fraction (by rw [hfraction]),
            mark_of_exponent hplain.2⟩
        · cases h
      · cases h
  · rintro ⟨digits, rest, rfl, hwhole, rfl, hlong, hcloses⟩
    have hdigits := wholeDigits_append hwhole rest hcloses.digit
    simp only [readUnsigned, hdigits, fraction_closes hcloses.point, exponent_closes hcloses.mark]
    exact if_pos hlong

theorem readNumber_tooManyDigits {place : List Char} {count : Nat} :
    readNumber place = .error (.tooManyDigits count) ↔ LongNumeral count place := by
  constructor
  · intro h
    unfold readNumber at h
    split at h
    · obtain ⟨digits, rest, rfl, hlong⟩ := readUnsigned_tooManyDigits.mp h
      exact ⟨true, digits, rest, rfl, hlong⟩
    · obtain ⟨digits, rest, rfl, hlong⟩ := readUnsigned_tooManyDigits.mp h
      exact ⟨false, digits, rest, rfl, hlong⟩
  · rintro ⟨negative, digits, rest, rfl, hlong⟩
    cases negative with
    | true => exact readUnsigned_tooManyDigits.mpr ⟨digits, rest, rfl, hlong⟩
    | false =>
      obtain ⟨c, more, heq, hc⟩ := hlong.1.head rest
      rw [if_neg (by decide), heq, readNumber_digit hc, ← heq]
      exact readUnsigned_tooManyDigits.mpr ⟨digits, rest, rfl, hlong⟩

theorem LongNumeral.readValue {place : List Char} {count : Nat} (h : LongNumeral count place)
    (fuel : Nat) : readValue (fuel + 1) place = .error (.tooManyDigits count) := by
  have hnumber := readNumber_tooManyDigits.mpr h
  obtain ⟨negative, digits, rest, rfl, hwhole, -⟩ := h
  obtain ⟨c, more, heq, hc⟩ := hwhole.head rest
  rw [heq] at hnumber ⊢
  cases negative with
  | true =>
    rw [if_pos rfl] at hnumber ⊢
    rw [readValue_plain (by decide) (by decide) (by decide), readWord?_minus hc, hnumber]
    rfl
  | false =>
    rw [if_neg (by decide)] at hnumber ⊢
    rw [readValue_plain (ne_of_digit hc rfl) (ne_of_digit hc rfl) (ne_of_digit hc rfl),
      readWord?_digit hc, hnumber]
    rfl

/-! ### Strings do not fail for a size -/

section

variable {α β : Type}

/-- A reader does not stop at a number. -/
def Sizeless (result : Except ReadError α) : Prop :=
  ∀ count, result ≠ .error (.tooManyDigits count)

theorem sizeless_ok (a : α) : Sizeless (.ok a) := by
  rintro count ⟨⟩

theorem sizeless_fail (expected : Expected) (place : List Char) :
    Sizeless (fail expected place : Except ReadError α) := by
  rintro count ⟨⟩

theorem Sizeless.bind {first : Except ReadError α} {next : α → Except ReadError β}
    (h : Sizeless first) (hnext : ∀ a, Sizeless (next a)) : Sizeless (first >>= next) := by
  match first with
  | .ok a => exact hnext a
  | .error cause =>
    rintro count ⟨⟩
    exact h count rfl

end

theorem sizeless_readUnit (letter : Char) (cs : List Char) : Sizeless (readUnit letter cs) := by
  unfold readUnit
  split
  · split
    · split
      · exact sizeless_fail _ _
      · exact sizeless_ok _
    · exact sizeless_fail _ _
  · exact sizeless_fail _ _

theorem sizeless_readUnicode (letter : Char) (cs : List Char) :
    Sizeless (readUnicode letter cs) := by
  refine (sizeless_readUnit letter cs).bind fun found => ?_
  dsimp only
  split
  · split
    · refine (sizeless_readUnit 'u' _).bind fun low => ?_
      split
      · exact sizeless_ok _
      · exact sizeless_ok _
    · exact sizeless_ok _
  · exact sizeless_ok _

theorem sizeless_readChar (opened : Nat) (cs : List Char) : Sizeless (readChar opened cs) := by
  unfold readChar
  split
  · rintro count ⟨⟩
  · exact sizeless_ok _
  · split
    · rintro count ⟨⟩
    · split
      · exact (sizeless_readUnicode _ _).bind fun _ => sizeless_ok _
      · split
        · exact sizeless_ok _
        · exact sizeless_fail _ _
  · split
    · exact sizeless_fail _ _
    · exact sizeless_ok _

theorem sizeless_readChars (opened fuel : Nat) (cs : List Char) :
    Sizeless (readChars opened fuel cs) := by
  induction fuel generalizing cs with
  | zero => rintro count ⟨⟩
  | succ fuel ih =>
    rw [readChars]
    refine (sizeless_readChar opened cs).bind fun found => ?_
    obtain ⟨c, rest⟩ := found
    cases c with
    | none => exact sizeless_ok _
    | some c => exact (ih rest).bind fun _ => sizeless_ok _

theorem sizeless_readString (cs : List Char) : Sizeless (readString cs) :=
  (sizeless_readChars _ _ cs).bind fun _ => sizeless_ok _

/-! ### Places of values -/

/-- A value is read from the beginning of a text up to `rest`. -/
def Reads (cs : List Char) (v : Json) (rest : List Char) : Prop :=
  readValue (fuelFor cs) cs = .ok (v, rest)

theorem Reads.suffix {cs rest : List Char} {v : Json} (h : Reads cs v rest) : rest <:+ cs := by
  have hwithin := (within_readers (fuelFor cs)).1 cs
  rw [h] at hwithin
  exact hwithin

/-- An item of a list, from its first item on, begins at a place. -/
inductive ItemAt : List Char → List Char → Prop where
  | first (cs : List Char) : ItemAt cs cs
  | later {cs rest after place : List Char} {v : Json} : Reads cs v rest →
      skipSpace rest = ',' :: after → ItemAt (skipSpace after) place → ItemAt cs place

/-- The value of an entry, from the first name of the object on, begins at a place. -/
inductive ValueAt : List Char → List Char → Prop where
  | first {text rest after : List Char} {name : String} : readString text = .ok (name, rest) →
      skipSpace rest = ':' :: after → ValueAt ('"' :: text) (skipSpace after)
  | later {text rest after behind more place : List Char} {name : String} {v : Json} :
      readString text = .ok (name, rest) → skipSpace rest = ':' :: after →
      Reads (skipSpace after) v behind → skipSpace behind = ',' :: more →
      ValueAt (skipSpace more) place → ValueAt ('"' :: text) place

/-- A value inside another begins at a place that the reader of the outer one comes to. -/
inductive Inner : List Char → List Char → Prop where
  | item {rest place : List Char} : (∀ after, skipSpace rest ≠ ']' :: after) →
      ItemAt (skipSpace rest) place → Inner ('[' :: rest) place
  | value {rest place : List Char} : ValueAt (skipSpace rest) place → Inner ('\x7b' :: rest) place

/-- The places that the reader of a value comes to: its own, and those of the values inside it. -/
def Meets : List Char → List Char → Prop := Relation.ReflTransGen Inner

/-! ### What fails inside fails as a whole -/

section

variable {cs place : List Char} {cause : ReadError}

theorem ItemAt.error (h : ItemAt cs place)
    (hplace : readValue (fuelFor place) place = .error cause) {fuel : Nat}
    (hfuel : 2 * cs.length + 1 < fuel) : readItems fuel cs = .error cause := by
  induction h generalizing fuel with
  | first cs =>
    obtain ⟨fuel, rfl⟩ := Nat.exists_eq_succ_of_ne_zero (Nat.ne_zero_of_lt hfuel)
    rw [readItems, readValue_fuelFor (by omega), hplace]
    rfl
  | later hreads hcomma _ ih =>
    obtain ⟨fuel, rfl⟩ := Nat.exists_eq_succ_of_ne_zero (Nat.ne_zero_of_lt hfuel)
    have hlength := length_lt_of_skipSpace hreads.suffix hcomma
    rw [readItems, readValue_fuelFor (by omega), hreads]
    simp only [bind, Except.bind, hcomma]
    rw [ih hplace (by omega)]

theorem readString_suffix {text rest : List Char} {name : String}
    (h : readString text = .ok (name, rest)) : rest <:+ text := by
  have hwithin := within_readString text
  rw [h] at hwithin
  exact hwithin

theorem ValueAt.error (h : ValueAt cs place)
    (hplace : readValue (fuelFor place) place = .error cause) {fuel : Nat}
    (hfuel : 2 * cs.length < fuel) (sofar : Entries Json) :
    readEntries fuel sofar cs = .error cause := by
  induction h generalizing fuel sofar with
  | first hname hcolon =>
    obtain ⟨fuel, rfl⟩ := Nat.exists_eq_succ_of_ne_zero (Nat.ne_zero_of_lt hfuel)
    have hlength := length_lt_of_skipSpace (readString_suffix hname) hcolon
    rw [List.length_cons] at hfuel
    rw [readEntries, hname]
    simp only [bind, Except.bind, hcolon]
    rw [readValue_fuelFor (by omega), hplace]
  | later hname hcolon hreads hcomma _ ih =>
    obtain ⟨fuel, rfl⟩ := Nat.exists_eq_succ_of_ne_zero (Nat.ne_zero_of_lt hfuel)
    have hlength := length_lt_of_skipSpace (readString_suffix hname) hcolon
    have hless := length_lt_of_skipSpace hreads.suffix hcomma
    rw [List.length_cons] at hfuel
    rw [readEntries, hname]
    simp only [bind, Except.bind, hcolon]
    rw [readValue_fuelFor (by omega), hreads]
    simp only [hcomma]
    exact ih hplace (by omega) _

theorem ValueAt.ne_brace (h : ValueAt cs place) : ∀ after, cs ≠ '\x7d' :: after := by
  rintro after rfl
  cases h

theorem Inner.error (h : Inner cs place) (hplace : readValue (fuelFor place) place = .error cause) :
    readValue (fuelFor cs) cs = .error cause := by
  cases h with
  | @item rest place hitems hitem =>
    have hlength := length_skipSpace_le rest
    have hread : readItems (2 * ('[' :: rest).length) (skipSpace rest) = .error cause := by
      apply hitem.error hplace
      rw [List.length_cons]
      omega
    rw [fuelFor, readValue]
    split
    · rename_i after heq
      exact absurd heq (hitems after)
    · rw [hread]
      rfl
  | @value rest place hvalue =>
    have hlength := length_skipSpace_le rest
    have hread : readEntries (2 * ('\x7b' :: rest).length) [] (skipSpace rest) = .error cause := by
      apply hvalue.error hplace
      rw [List.length_cons]
      omega
    rw [fuelFor, readValue]
    split
    · rename_i after heq
      exact absurd heq (hvalue.ne_brace after)
    · rw [hread]
      rfl

/-- By induction on the way to the place. -/
theorem Meets.error (h : Meets cs place) (hplace : readValue (fuelFor place) place = .error cause) :
    readValue (fuelFor cs) cs = .error cause := by
  induction h using Relation.ReflTransGen.head_induction_on with
  | refl => exact hplace
  | head hinner _ ih => exact hinner.error ih

end

/-! ### A size is met where a reading fails for it -/

section

variable {count : Nat} {cs : List Char}

/-- The reader of a value comes to a whole number with too many digits. -/
def MeetsLong (count : Nat) (cs : List Char) : Prop :=
  ∃ place, Meets cs place ∧ LongNumeral count place

theorem MeetsLong.inner {place : List Char} (h : MeetsLong count place) (hinner : Inner cs place) :
    MeetsLong count cs := by
  obtain ⟨last, hmeets, hlong⟩ := h
  exact ⟨last, hmeets.head hinner, hlong⟩

theorem bind_error {α β : Type} {first : Except ReadError α} {next : α → Except ReadError β}
    {cause : ReadError} (h : first >>= next = .error cause) :
    first = .error cause ∨ ∃ a, first = .ok a ∧ next a = .error cause := by
  match first with
  | .ok a => exact .inr ⟨a, rfl, h⟩
  | .error _ =>
    cases h
    exact .inl rfl

/-- Where a reader with enough fuel fails for the size of a number, it comes to this number: in the
value itself, in an item, or in the value of an entry. -/
structure Explained (count fuel : Nat) : Prop where
  value : ∀ cs, 2 * cs.length < fuel → readValue fuel cs = .error (.tooManyDigits count) →
    MeetsLong count cs
  items : ∀ cs, 2 * cs.length + 1 < fuel → readItems fuel cs = .error (.tooManyDigits count) →
    ∃ item, ItemAt cs item ∧ MeetsLong count item
  entries : ∀ sofar cs, 2 * cs.length < fuel →
    readEntries fuel sofar cs = .error (.tooManyDigits count) →
    ∃ value, ValueAt cs value ∧ MeetsLong count value

namespace Explained

variable {fuel : Nat}

theorem readValue (hreaders : Explained count fuel) (cs : List Char)
    (hfuel : 2 * cs.length < fuel + 1)
    (h : readValue (fuel + 1) cs = .error (.tooManyDigits count)) : MeetsLong count cs := by
  unfold Json.readValue at h
  split at h
  · rename_i rest
    exact absurd h ((sizeless_readString rest).bind (fun _ => sizeless_ok _) count)
  · rename_i rest
    have hlength := length_skipSpace_le rest
    rw [List.length_cons] at hfuel
    split at h
    · cases h
    · rename_i hopen
      obtain hfails | ⟨_, _, ⟨⟩⟩ := bind_error h
      obtain ⟨item, hitem, hmet⟩ := hreaders.items _ (by omega) hfails
      exact hmet.inner (.item hopen hitem)
  · rename_i rest
    have hlength := length_skipSpace_le rest
    rw [List.length_cons] at hfuel
    split at h
    · cases h
    · obtain hfails | ⟨_, _, ⟨⟩⟩ := bind_error h
      obtain ⟨value, hvalue, hmet⟩ := hreaders.entries _ _ (by omega) hfails
      exact hmet.inner (.value hvalue)
  · split at h
    · cases h
    · obtain hfails | ⟨_, _, ⟨⟩⟩ := bind_error h
      exact ⟨cs, .refl, readNumber_tooManyDigits.mp hfails⟩

theorem readItems (hreaders : Explained count fuel) (cs : List Char)
    (hfuel : 2 * cs.length + 1 < fuel + 1)
    (h : readItems (fuel + 1) cs = .error (.tooManyDigits count)) :
    ∃ item, ItemAt cs item ∧ MeetsLong count item := by
  rw [Json.readItems] at h
  obtain hfails | ⟨⟨v, rest⟩, hreads, h⟩ := bind_error h
  · exact ⟨cs, .first cs, hreaders.value cs (by omega) hfails⟩
  · rw [readValue_fuelFor (by omega)] at hreads
    dsimp only at h
    split at h
    · cases h
    · rename_i after hcomma
      have hlength := length_lt_of_skipSpace (Reads.suffix hreads) hcomma
      obtain hfails | ⟨_, _, ⟨⟩⟩ := bind_error h
      obtain ⟨item, hitem, hmet⟩ := hreaders.items _ (by omega) hfails
      exact ⟨item, .later hreads hcomma hitem, hmet⟩
    · cases h

theorem readEntries (hreaders : Explained count fuel) (sofar : Entries Json) (cs : List Char)
    (hfuel : 2 * cs.length < fuel + 1)
    (h : readEntries (fuel + 1) sofar cs = .error (.tooManyDigits count)) :
    ∃ value, ValueAt cs value ∧ MeetsLong count value := by
  unfold Json.readEntries at h
  split at h
  · rename_i text
    rw [List.length_cons] at hfuel
    obtain hfails | ⟨⟨name, rest⟩, hname, h⟩ := bind_error h
    · exact absurd hfails (sizeless_readString text count)
    · dsimp only at h
      split at h
      · rename_i after hcolon
        have hlength := length_lt_of_skipSpace (readString_suffix hname) hcolon
        obtain hfails | ⟨⟨v, behind⟩, hreads, h⟩ := bind_error h
        · exact ⟨_, .first hname hcolon, hreaders.value _ (by omega) hfails⟩
        · rw [readValue_fuelFor (by omega)] at hreads
          dsimp only at h
          split at h
          · cases h
          · rename_i more hcomma
            have hless := length_lt_of_skipSpace (Reads.suffix hreads) hcomma
            obtain ⟨value, hat, hmet⟩ := hreaders.entries _ _ (by omega) h
            exact ⟨value, .later hname hcolon hreads hcomma hat, hmet⟩
          · cases h
      · cases h
  · cases h

end Explained

/-- By induction on the fuel, for all three readers at once, since they call each other. -/
theorem explained (count fuel : Nat) : Explained count fuel := by
  induction fuel with
  | zero => exact ⟨by omega, by omega, by omega⟩
  | succ fuel ih => exact ⟨ih.readValue, ih.readItems, ih.readEntries⟩

theorem readValue_tooManyDigits :
    readValue (fuelFor cs) cs = .error (.tooManyDigits count) ↔ MeetsLong count cs := by
  constructor
  · exact (explained count (fuelFor cs)).value cs (Nat.lt_succ_self _)
  · rintro ⟨place, hmeets, hlong⟩
    exact hmeets.error (hlong.readValue _)

/-- A reading fails for the size of a number exactly when its reader comes to a whole number with
too many digits. -/
theorem read_tooManyDigits_iff :
    read cs = .error (.tooManyDigits count) ↔ MeetsLong count (skipSpace cs) := by
  have henough : 2 * (skipSpace cs).length < fuelFor cs := by
    have hlength := length_skipSpace_le cs
    rw [fuelFor]
    omega
  rw [← readValue_tooManyDigits, ← readValue_fuelFor henough]
  unfold read
  split
  · rename_i rest
    have hspace : skipSpace ('\uFEFF' :: rest) = '\uFEFF' :: rest := rfl
    have hmark : ∀ fuel, readValue (fuel + 1) ('\uFEFF' :: rest) = fail .value ('\uFEFF' :: rest) :=
      fun _ => rfl
    rw [hspace, fuelFor, hmark]
    exact ⟨nofun, nofun⟩
  · constructor
    · intro h
      obtain hfails | ⟨⟨v, rest⟩, _, h⟩ := bind_error h
      · exact hfails
      · dsimp only at h
        split at h <;> cases h
    · intro h
      rw [h]
      rfl

end

end AdminConsole.Json
