import AdminConsole.Proofs.Json.Numerals

/-!
What a reader leaves. The rest of every reading is an end of the text that was given.
-/

namespace AdminConsole.Json

section

variable {α β : Type} {cs rest : List Char}

/-- A result of a reader on a text: the rest is an end of the text. -/
def Within (cs : List Char) : Except ReadError (α × List Char) → Prop
  | .ok found => found.2 <:+ cs
  | .error _ => True

theorem within_fail (expected : Expected) (place : List Char) :
    Within cs (fail expected place : Except ReadError (α × List Char)) := trivial

theorem Within.of_suffix {result : Except ReadError (α × List Char)} (h : Within rest result)
    (hsuffix : rest <:+ cs) : Within cs result := by
  match result with
  | .ok found => exact List.IsSuffix.trans h hsuffix
  | .error _ => trivial

theorem Within.bind {first : Except ReadError (α × List Char)}
    {next : α × List Char → Except ReadError (β × List Char)} (h : Within cs first)
    (hnext : ∀ a rest, rest <:+ cs → Within cs (next (a, rest))) : Within cs (first >>= next) := by
  match first with
  | .ok (a, rest) => exact hnext a rest h
  | .error _ => trivial

end

/-! ### Strings -/

theorem within_readUnit (letter : Char) (cs : List Char) : Within cs (readUnit letter cs) := by
  unfold readUnit
  split
  · split
    · split
      · exact within_fail _ _
      · exact ⟨[_, _, _, _], rfl⟩
    · exact within_fail _ _
  · exact within_fail _ _

theorem within_readUnicode (letter : Char) (cs : List Char) :
    Within cs (readUnicode letter cs) := by
  refine (within_readUnit letter cs).bind fun unit rest hrest => ?_
  refine Within.of_suffix ?_ hrest
  dsimp only
  split
  · rename_i a b c d after
    split
    · refine Within.bind ((within_readUnit 'u' _).of_suffix ⟨['\\', 'u'], rfl⟩)
        fun low after hafter => ?_
      dsimp only
      split
      · exact hafter
      · exact List.suffix_rfl
    · exact List.suffix_rfl
  · exact List.suffix_rfl

theorem within_readChar (opened : Nat) (cs : List Char) : Within cs (readChar opened cs) := by
  unfold readChar
  split
  · trivial
  · exact List.suffix_cons _ _
  · split
    · trivial
    · rename_i letter after
      have htail : after <:+ '\\' :: letter :: after := ⟨['\\', letter], rfl⟩
      split
      · exact ((within_readUnicode letter after).of_suffix htail).bind fun _ _ hrest => hrest
      · split
        · exact htail
        · trivial
  · split
    · trivial
    · exact List.suffix_cons _ _

theorem within_readChars (opened fuel : Nat) (cs : List Char) :
    Within cs (readChars opened fuel cs) := by
  induction fuel generalizing cs with
  | zero => trivial
  | succ fuel ih =>
    rw [readChars]
    refine (within_readChar opened cs).bind fun found rest hrest => ?_
    cases found with
    | none => exact hrest
    | some c => exact ((ih rest).of_suffix hrest).bind fun _ _ hmore => hmore

theorem within_readString (cs : List Char) : Within cs (readString cs) :=
  (within_readChars _ _ cs).bind fun _ _ hrest => hrest

/-! ### Numbers -/

theorem wholeDigits_some {cs digits rest : List Char} (h : wholeDigits cs = some (digits, rest)) :
    cs = digits ++ rest ∧ Digits digits := by
  unfold wholeDigits at h
  split at h
  · cases h
    exact ⟨rfl, digits_replicate 1⟩
  · split at h
    · cases h
    · cases h
      exact ⟨List.takeWhile_append_dropWhile.symm, List.all_eq_true.mp List.all_takeWhile⟩

theorem fraction_suffix (cs : List Char) : (fraction cs).2 <:+ cs := by
  unfold fraction
  split
  · split
    · exact List.suffix_rfl
    · exact (List.dropWhile_suffix Char.isDigit).trans (List.suffix_cons _ _)
  · exact List.suffix_rfl

theorem sign_suffix (cs : List Char) : (Text.sign cs).2 <:+ cs := by
  unfold Text.sign
  split
  · exact List.suffix_cons _ _
  · exact List.suffix_cons _ _
  · exact List.suffix_rfl

theorem exponent_suffix (cs : List Char) : (exponent cs).2 <:+ cs := by
  unfold exponent
  split
  · rename_i mark rest
    split
    · dsimp only
      split
      · exact List.suffix_rfl
      · exact (List.dropWhile_suffix Char.isDigit).trans
          ((sign_suffix rest).trans (List.suffix_cons _ _))
    · exact List.suffix_rfl
  · exact List.suffix_rfl

theorem within_readUnsigned (start : List Char) (negative : Bool) (cs : List Char) :
    Within cs (readUnsigned start negative cs) := by
  unfold readUnsigned
  split
  · exact within_fail _ _
  · rename_i digits rest hwhole
    obtain ⟨rfl, -⟩ := wholeDigits_some hwhole
    have hrest : (exponent (fraction rest).2).2 <:+ digits ++ rest :=
      ((exponent_suffix _).trans (fraction_suffix rest)).trans (List.suffix_append digits rest)
    dsimp only
    split
    · split
      · trivial
      · exact hrest
    · exact hrest

theorem within_readNumber (cs : List Char) : Within cs (readNumber cs) := by
  unfold readNumber
  split
  · exact (within_readUnsigned _ _ _).of_suffix (List.suffix_cons _ _)
  · exact within_readUnsigned _ _ _

/-! ### Values -/

theorem readWord?_suffix {cs rest : List Char} {v : Json} (h : readWord? cs = some (v, rest)) :
    rest <:+ cs := by
  obtain ⟨entry, -, heq⟩ := Option.map_eq_some_iff.mp h
  cases heq
  exact List.drop_suffix _ cs

theorem skipSpace_suffix (cs : List Char) : skipSpace cs <:+ cs := List.dropWhile_suffix isSpace

/-- What follows the first character behind some space is a suffix, too. -/
theorem suffix_of_skipSpace {c : Char} {cs rest after : List Char} (hrest : rest <:+ cs)
    (h : skipSpace rest = c :: after) : after <:+ cs := by
  have hskip := (skipSpace_suffix rest).trans hrest
  rw [h] at hskip
  exact (List.suffix_cons c after).trans hskip

theorem within_readValue_succ {fuel : Nat} (hitems : ∀ cs, Within cs (readItems fuel cs))
    (hentries : ∀ sofar cs, Within cs (readEntries fuel sofar cs)) (cs : List Char) :
    Within cs (readValue (fuel + 1) cs) := by
  unfold readValue
  split
  · rename_i rest
    exact ((within_readString rest).of_suffix (List.suffix_cons _ _)).bind fun _ _ hrest => hrest
  · rename_i rest
    have hrest : rest <:+ '[' :: rest := List.suffix_cons _ _
    split
    · rename_i heq
      exact suffix_of_skipSpace hrest heq
    · exact ((hitems _).of_suffix ((skipSpace_suffix rest).trans hrest)).bind fun _ _ hmore => hmore
  · rename_i rest
    have hrest : rest <:+ '\x7b' :: rest := List.suffix_cons _ _
    split
    · rename_i heq
      exact suffix_of_skipSpace hrest heq
    · exact ((hentries _ _).of_suffix ((skipSpace_suffix rest).trans hrest)).bind
        fun _ _ hmore => hmore
  · split
    · rename_i found hword
      exact readWord?_suffix hword
    · exact (within_readNumber _).bind fun _ _ hrest => hrest

theorem within_readItems_succ {fuel : Nat} (hvalue : ∀ cs, Within cs (readValue fuel cs))
    (hitems : ∀ cs, Within cs (readItems fuel cs)) (cs : List Char) :
    Within cs (readItems (fuel + 1) cs) := by
  rw [readItems]
  refine (hvalue cs).bind fun item rest hrest => ?_
  dsimp only
  split
  · rename_i heq
    exact suffix_of_skipSpace hrest heq
  · rename_i after heq
    have hafter := (skipSpace_suffix after).trans (suffix_of_skipSpace hrest heq)
    exact ((hitems _).of_suffix hafter).bind fun _ _ hmore => hmore
  · trivial

theorem within_readEntries_succ {fuel : Nat} (hvalue : ∀ cs, Within cs (readValue fuel cs))
    (hentries : ∀ sofar cs, Within cs (readEntries fuel sofar cs)) (sofar : Entries Json)
    (cs : List Char) : Within cs (readEntries (fuel + 1) sofar cs) := by
  unfold readEntries
  split
  · rename_i rest
    refine ((within_readString rest).of_suffix (List.suffix_cons _ _)).bind
      fun name rest hrest => ?_
    dsimp only
    split
    · rename_i after heq
      have hafter := (skipSpace_suffix after).trans (suffix_of_skipSpace hrest heq)
      refine ((hvalue _).of_suffix hafter).bind fun value rest hrest => ?_
      dsimp only
      split
      · rename_i heq
        exact suffix_of_skipSpace hrest heq
      · rename_i more heq
        exact (hentries _ _).of_suffix
          ((skipSpace_suffix more).trans (suffix_of_skipSpace hrest heq))
      · trivial
    · trivial
  · trivial

/-- By induction on the fuel, for all three readers at once, since they call each other. -/
theorem within_readers (fuel : Nat) :
    (∀ cs, Within cs (readValue fuel cs)) ∧ (∀ cs, Within cs (readItems fuel cs)) ∧
      ∀ sofar cs, Within cs (readEntries fuel sofar cs) := by
  induction fuel with
  | zero => exact ⟨fun _ => trivial, fun _ => trivial, fun _ _ => trivial⟩
  | succ fuel ih =>
    obtain ⟨hvalue, hitems, hentries⟩ := ih
    exact ⟨within_readValue_succ hitems hentries, within_readItems_succ hvalue hitems,
      within_readEntries_succ hvalue hentries⟩

end AdminConsole.Json
