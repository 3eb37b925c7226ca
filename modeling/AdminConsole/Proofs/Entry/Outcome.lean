import AdminConsole.Proofs.Entry.Wrapping
import AdminConsole.Proofs.Json.Places
import AdminConsole.Proofs.Json.Readable

/-!
What becomes of an entry that is decoded. Blank text, text that is neither base64 nor plain, bytes
outside ASCII and text that is not JSON all make it malformed. One fault passes by: the text is read
as far as a whole number with too many digits.
-/

namespace AdminConsole.Entry

/-- The reader of the text in an entry comes to a whole number of `count` digits, which are too
many. -/
def Overlong (entry : String) (count : Nat) : Prop :=
  ∃ text, textOf (Text.strip entry.toList) = .ok text ∧
    Json.MeetsLong count (Json.skipSpace text)

theorem decode_number_iff {entry : String} {count : Nat} :
    decode entry = .error (.number (.tooManyDigitsToRead count)) ↔ Overlong entry count := by
  unfold decode Overlong
  cases htext : textOf (Text.strip entry.toList) with
  | error cause => exact ⟨nofun, nofun⟩
  | ok text =>
    simp only [Except.ok.injEq, exists_eq_left', ← Json.read_tooManyDigits_iff]
    cases hread : Json.read text with
    | ok v => exact ⟨nofun, nofun⟩
    | error cause =>
      cases cause with
      | unexpected expected left => exact ⟨nofun, nofun⟩
      | tooManyDigits digits => simp

theorem decode_cases (entry : String) :
    (∃ v, decode entry = .ok v) ∨ (∃ cause, decode entry = .error (.malformed cause)) ∨
      ∃ count, decode entry = .error (.number (.tooManyDigitsToRead count)) := by
  unfold decode
  split
  · exact .inr (.inl ⟨_, rfl⟩)
  · split
    · exact .inl ⟨_, rfl⟩
    · exact .inr (.inl ⟨_, rfl⟩)
    · exact .inr (.inr ⟨_, rfl⟩)

/-- An entry has a value, one that can be stored again, or is malformed, exactly when its reader
does not come to a whole number with too many digits; there it stops at this number. -/
theorem decode_outcome (entry : String) :
    (((∃ v, decode entry = .ok v ∧ v.Readable) ∨ ∃ cause, decode entry = .error (.malformed cause)) ↔
        ∀ count, ¬ Overlong entry count) ∧
      ∀ count, Overlong entry count →
        decode entry = .error (.number (.tooManyDigitsToRead count)) := by
  refine ⟨⟨?_, fun hshort => ?_⟩, fun count => decode_number_iff.mpr⟩
  · rintro h count hlong
    have hnumber := decode_number_iff.mpr hlong
    rcases h with ⟨v, hdecode, -⟩ | ⟨cause, hdecode⟩
    · exact nomatch hdecode.symm.trans hnumber
    · exact nomatch hdecode.symm.trans hnumber
  · rcases decode_cases entry with ⟨v, hdecode⟩ | hmalformed | ⟨count, hnumber⟩
    · exact .inl ⟨v, hdecode, readable_of_decode hdecode⟩
    · exact .inr hmalformed
    · exact absurd (decode_number_iff.mp hnumber) (hshort count)

/-! ### A list of one number -/

/-- A plain list whose only item is written with these digits. -/
def listOf (digits : List Char) : String := String.ofList ('[' :: (digits ++ [']']))

theorem textOf_listOf (digits : List Char) :
    textOf (Text.strip (listOf digits).toList) = .ok ('[' :: (digits ++ [']'])) := by
  have hstrip : Text.strip ('[' :: (digits ++ [']'])) = '[' :: (digits ++ [']']) := by
    refine Text.stripBy_eq_self ?_ ?_
    · intro c hc
      cases hc
      decide
    · intro c hc
      rw [← List.cons_append, List.getLast?_append] at hc
      cases hc
      decide
  rw [listOf, String.toList_ofList, hstrip]
  rfl

theorem overlong_listOf {digits : List Char} (hwhole : Json.Whole digits)
    (hlong : digitLimit < digits.length) : Overlong (listOf digits) digits.length := by
  have hspace : Json.skipSpace (digits ++ [']']) = digits ++ [']'] := by
    obtain ⟨c, more, heq, hc⟩ := hwhole.head [']']
    rw [heq, Json.skipSpace_cons (Json.starts_digit hc).1]
  have hitem : Json.Inner ('[' :: (digits ++ [']'])) (digits ++ [']']) := by
    refine .item ?_ ?_
    · intro after hnone
      obtain ⟨c, more, heq, hc⟩ := hwhole.head [']']
      rw [hspace, heq] at hnone
      exact (Json.starts_digit hc).2.1 (List.cons.inj hnone).1
    · rw [hspace]
      exact .first _
  have hcloses : Json.Closes [']'] := by
    refine ⟨?_, nofun, ?_⟩
    · intro c hc
      cases hc
      rfl
    · rintro mark more ⟨⟩ hmark
      exact absurd hmark (by decide)
  exact ⟨_, textOf_listOf digits, digits ++ [']'], .single hitem,
    false, digits, [']'], rfl, hwhole, rfl, hlong, hcloses⟩

/-- The digit 1, as often as makes a whole number just too long. -/
def longOnes : List Char := List.replicate (digitLimit + 1) '1'

/-- A list with such a number has no value, and is not malformed either. -/
theorem decode_longOnes :
    decode (listOf longOnes) = .error (.number (.tooManyDigitsToRead (digitLimit + 1))) ∧
      ¬ ((∃ v, decode (listOf longOnes) = .ok v) ∨
        ∃ cause, decode (listOf longOnes) = .error (.malformed cause)) := by
  have hwhole : Json.Whole longOnes := by
    rw [longOnes, List.replicate_succ]
    refine .digits (fun c hc => ?_) (by decide)
    rw [← List.replicate_succ] at hc
    rw [List.eq_of_mem_replicate hc]
    rfl
  have hlength : longOnes.length = digitLimit + 1 := List.length_replicate
  have hnumber := decode_number_iff.mpr (overlong_listOf hwhole (by omega))
  rw [hlength] at hnumber
  refine ⟨hnumber, ?_⟩
  rw [hnumber]
  rintro (⟨v, ⟨⟩⟩ | ⟨cause, ⟨⟩⟩)

end AdminConsole.Entry
