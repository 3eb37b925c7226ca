import AdminConsole.Proofs.Json.Suffixes

/-!
Enough fuel. A bracket takes two units of fuel and at least one character. So a reader that has more
than two units for every character of its text never runs out of them, and what it brings does not
depend on how many more it has.
-/

namespace AdminConsole.Json

/-- What follows a reader may be replaced by what does the same on every end of the text. -/
theorem Within.bind_congr {α β : Type} {cs : List Char} {first : Except ReadError (α × List Char)}
    {next other : α × List Char → Except ReadError (β × List Char)} (h : Within cs first)
    (hnext : ∀ a rest, rest <:+ cs → next (a, rest) = other (a, rest)) :
    first >>= next = first >>= other := by
  match first with
  | .ok (a, rest) => exact hnext a rest h
  | .error _ => rfl

theorem length_skipSpace_le (cs : List Char) : (skipSpace cs).length ≤ cs.length :=
  (skipSpace_suffix cs).length_le

/-- Behind a separator there are fewer characters than in the text. -/
theorem length_lt_of_skipSpace {c : Char} {cs rest after : List Char} (hrest : rest <:+ cs)
    (h : skipSpace rest = c :: after) : (skipSpace after).length < cs.length := by
  have hskip := (skipSpace_suffix rest).trans hrest
  rw [h] at hskip
  calc (skipSpace after).length ≤ after.length := length_skipSpace_le after
    _ < (c :: after).length := Nat.lt_succ_self _
    _ ≤ cs.length := hskip.length_le

/-- With these two amounts of fuel the readers bring the same from every text for which both are
enough. The items of a list need one unit more than a value of that length, since the first item
has all of the text. -/
structure Agree (f g : Nat) : Prop where
  value : ∀ cs, 2 * cs.length < f → 2 * cs.length < g → readValue f cs = readValue g cs
  items : ∀ cs, 2 * cs.length + 1 < f → 2 * cs.length + 1 < g → readItems f cs = readItems g cs
  entries : ∀ sofar cs, 2 * cs.length < f → 2 * cs.length < g →
    readEntries f sofar cs = readEntries g sofar cs

namespace Agree

variable {f g : Nat}

theorem readValue (h : Agree f g) (cs : List Char) (hf : 2 * cs.length < f + 1)
    (hg : 2 * cs.length < g + 1) : readValue (f + 1) cs = readValue (g + 1) cs := by
  unfold Json.readValue
  split
  · rfl
  · rename_i rest
    have hlength := length_skipSpace_le rest
    rw [List.length_cons] at hf hg
    dsimp only
    split
    · rfl
    · rw [h.items _ (by omega) (by omega)]
  · rename_i rest
    have hlength := length_skipSpace_le rest
    rw [List.length_cons] at hf hg
    dsimp only
    split
    · rfl
    · rw [h.entries _ _ (by omega) (by omega)]
  · rfl

theorem readItems (h : Agree f g) (cs : List Char) (hf : 2 * cs.length + 1 < f + 1)
    (hg : 2 * cs.length + 1 < g + 1) : readItems (f + 1) cs = readItems (g + 1) cs := by
  rw [Json.readItems, Json.readItems, h.value cs (by omega) (by omega)]
  refine ((within_readers g).1 cs).bind_congr fun item rest hrest => ?_
  dsimp only
  split
  · rfl
  · rename_i after heq
    have hlength := length_lt_of_skipSpace hrest heq
    rw [h.items _ (by omega) (by omega)]
  · rfl

theorem readEntries (h : Agree f g) (sofar : Entries Json) (cs : List Char)
    (hf : 2 * cs.length < f + 1) (hg : 2 * cs.length < g + 1) :
    readEntries (f + 1) sofar cs = readEntries (g + 1) sofar cs := by
  unfold Json.readEntries
  split
  · rename_i text
    rw [List.length_cons] at hf hg
    refine (within_readString text).bind_congr fun name rest hrest => ?_
    dsimp only
    split
    · rename_i after heq
      have hlength := length_lt_of_skipSpace hrest heq
      rw [h.value _ (by omega) (by omega)]
      refine ((within_readers g).1 _).bind_congr fun value rest hrest => ?_
      dsimp only
      split
      · rfl
      · rename_i more heq
        have hless := length_lt_of_skipSpace hrest heq
        exact h.entries _ _ (by omega) (by omega)
      · rfl
    · rfl
  · rfl

end Agree

/-- By induction on one of the amounts, for all three readers at once, since they call each other. -/
theorem agree (f g : Nat) : Agree f g := by
  induction f generalizing g with
  | zero => exact ⟨by omega, by omega, by omega⟩
  | succ f ih =>
    cases g with
    | zero => exact ⟨by omega, by omega, by omega⟩
    | succ g => exact ⟨(ih g).readValue, (ih g).readItems, (ih g).readEntries⟩

/-- The fuel of a text is enough: a value is read with it as with any larger amount. -/
theorem readValue_fuelFor {fuel : Nat} {cs : List Char} (h : 2 * cs.length < fuel) :
    readValue fuel cs = readValue (fuelFor cs) cs :=
  (agree fuel (fuelFor cs)).value cs h (Nat.lt_succ_self _)

-- Brackets that are never closed need the most: a value is missing behind the last of them.
example : read ['[', '[', '['] = .error (.unexpected .value 0) := rfl

end AdminConsole.Json
