import AdminConsole.Json.Reader
import AdminConsole.Json.Writer
import AdminConsole.Proofs.Text.Codes

/-!
Strings. Every escape that is written for a character is read as this character, a pair of units as
the one character beyond the first plane, so a written string is read up to its closing quote.
-/

namespace AdminConsole.Json

variable {rest : List Char}

/-! ### Units -/

theorem readUnit_hex (letter : Char) {n : Nat} (h : n < 0x10000) (hrest : rest ≠ []) :
    readUnit letter (Text.hex 4 n ++ rest) = .ok (n, rest) := by
  rw [Text.hex_four]
  simp only [List.cons_append, List.nil_append, readUnit, Text.hex4?_hex h]
  rw [if_neg (by simpa using hrest)]

theorem readUnicode_unit (letter : Char) {n : Nat} (h : n < 0x10000)
    (hhigh : Text.isHighUnit n = false) (hrest : rest ≠ []) :
    readUnicode letter (Text.hex 4 n ++ rest) = .ok (Text.unitChar n, rest) := by
  simp only [readUnicode, readUnit_hex letter h hrest]
  simp only [bind, Except.bind]
  split
  · simp [hhigh, pure, Except.pure]
  · rfl

theorem readUnicode_pair (letter : Char) {high low : Nat} (hhigh : Text.isHighUnit high = true)
    (hlow : Text.isLowUnit low = true) (hrest : rest ≠ []) :
    readUnicode letter (Text.hex 4 high ++ '\\' :: 'u' :: (Text.hex 4 low ++ rest)) =
      .ok (Char.ofNat (Text.joined high low), rest) := by
  have hhighBound : high < 0x10000 := by
    simp only [Text.isHighUnit, Bool.and_eq_true, decide_eq_true_eq] at hhigh
    omega
  have hlowBound : low < 0x10000 := by
    simp only [Text.isLowUnit, Bool.and_eq_true, decide_eq_true_eq] at hlow
    omega
  have hfirst : readUnit letter (Text.hex 4 high ++ '\\' :: 'u' :: (Text.hex 4 low ++ rest)) =
      .ok (high, '\\' :: 'u' :: (Text.hex 4 low ++ rest)) :=
    readUnit_hex letter hhighBound (by simp)
  have hsecond := readUnit_hex 'u' hlowBound hrest
  simp only [readUnicode, hfirst]
  rw [Text.hex_four low] at hsecond ⊢
  simp only [List.cons_append, List.nil_append] at hsecond ⊢
  simp [bind, Except.bind, pure, Except.pure, hhigh, hsecond, hlow, hrest]

/-! ### Characters -/

theorem readChar_unitEscape (opened : Nat) (c : Char) (hrest : rest ≠ []) :
    readChar opened (unitEscape c ++ rest) = .ok (some c, rest) := by
  have hvalid : c.toNat < 0xD800 ∨ (0xDFFF < c.toNat ∧ c.toNat < 0x110000) := c.valid
  simp only [unitEscape]
  split
  · rename_i hfirst
    have hhigh := (Bool.or_eq_false_iff.mp (Text.isHalf_toNat c)).1
    have hunit := readUnicode_unit 'u' hfirst hhigh hrest
    rw [Text.unitChar_toNat] at hunit
    simp only [List.cons_append, readChar, if_true, hunit]
    rfl
  · rename_i hbeyond
    have hself : Char.ofNat c.toNat = c := Char.ofNat_toNat c
    generalize c.toNat = n at hvalid hself hbeyond ⊢
    have hhigh : Text.isHighUnit (0xD800 + (n - 0x10000) / 0x400) = true := by
      simp only [Text.isHighUnit, Bool.and_eq_true, decide_eq_true_eq]
      omega
    have hlow : Text.isLowUnit (0xDC00 + (n - 0x10000) % 0x400) = true := by
      simp only [Text.isLowUnit, Bool.and_eq_true, decide_eq_true_eq]
      omega
    have hpair := readUnicode_pair 'u' hhigh hlow hrest
    rw [Text.joined_split (Nat.not_lt.mp hbeyond), hself] at hpair
    simp only [List.cons_append, List.append_assoc, readChar, if_true, hpair]
    rfl

/-- A character that needs no escape stands for itself. -/
theorem readChar_plain (opened : Nat) {c : Char} (hquote : c ≠ '"') (hslash : c ≠ '\\')
    (hcontrol : 32 ≤ c.toNat) : readChar opened (c :: rest) = .ok (some c, rest) := by
  unfold readChar
  split
  · rename_i heq
    cases heq
  · rename_i heq
    exact absurd (List.cons.inj heq).1 hquote
  · rename_i heq
    exact absurd (List.cons.inj heq).1 hslash
  · rename_i heq
    obtain ⟨rfl, rfl⟩ := List.cons.inj heq
    rw [if_neg (Nat.not_lt.mpr hcontrol)]

theorem readChar_escapeChar (opened : Nat) (asciiOnly : Bool) (c : Char) (hrest : rest ≠ []) :
    readChar opened (escapeChar asciiOnly c ++ rest) = .ok (some c, rest) := by
  have hself : Char.ofNat c.toNat = c := Char.ofNat_toNat c
  unfold escapeChar
  split
  · rename_i hquote
    rw [hquote]
    rfl
  rename_i hquote
  split
  · rename_i hslash
    rw [hslash]
    rfl
  rename_i hslash
  split
  · rename_i hnewline
    rw [hnewline]
    rfl
  split
  · rename_i hreturn
    rw [hreturn]
    rfl
  split
  · rename_i htab
    rw [htab]
    rfl
  split
  · rename_i hback
    rw [hback] at hself
    rw [← hself]
    rfl
  split
  · rename_i hfeed
    rw [hfeed] at hself
    rw [← hself]
    rfl
  split
  · exact readChar_unitEscape opened c hrest
  rename_i hcontrol
  split
  · exact readChar_unitEscape opened c hrest
  · exact readChar_plain opened hquote hslash (Nat.not_lt.mp hcontrol)

/-! ### Whole strings -/

theorem escapeChar_ne_nil (asciiOnly : Bool) (c : Char) : escapeChar asciiOnly c ≠ [] := by
  intro hnil
  have hread := readChar_escapeChar 0 asciiOnly c (List.cons_ne_nil '"' [])
  rw [hnil] at hread
  cases hread

theorem length_le_flatMap (asciiOnly : Bool) (cs : List Char) :
    cs.length ≤ (cs.flatMap (escapeChar asciiOnly)).length := by
  induction cs with
  | nil => exact Nat.le_refl 0
  | cons c cs ih =>
    have hpos := List.length_pos_iff.mpr (escapeChar_ne_nil asciiOnly c)
    rw [List.flatMap_cons, List.length_append, List.length_cons]
    omega

theorem readChars_flatMap (opened : Nat) (asciiOnly : Bool) (cs rest : List Char) {fuel : Nat}
    (hfuel : cs.length < fuel) :
    readChars opened fuel (cs.flatMap (escapeChar asciiOnly) ++ '"' :: rest) = .ok (cs, rest) := by
  induction cs generalizing fuel with
  | nil =>
    obtain ⟨fuel, rfl⟩ := Nat.exists_eq_add_one_of_ne_zero (Nat.ne_of_gt hfuel)
    rfl
  | cons c cs ih =>
    rw [List.length_cons] at hfuel
    obtain ⟨fuel, rfl⟩ := Nat.exists_eq_add_one_of_ne_zero (show fuel ≠ 0 by omega)
    rw [List.flatMap_cons, List.append_assoc, readChars,
      readChar_escapeChar opened asciiOnly c (by simp)]
    simp only [bind, Except.bind, ih (Nat.lt_of_succ_lt_succ hfuel), pure, Except.pure]

/-- A written string is read from behind its opening quote up to its closing one. -/
theorem readString_writeText (asciiOnly : Bool) (s : String) (rest : List Char) :
    readString (s.toList.flatMap (escapeChar asciiOnly) ++ '"' :: rest) = .ok (s, rest) := by
  have hfuel : s.toList.length <
      (s.toList.flatMap (escapeChar asciiOnly) ++ '"' :: rest).length + 1 := by
    have hle := length_le_flatMap asciiOnly s.toList
    rw [List.length_append]
    omega
  simp only [readString, readChars_flatMap _ _ _ _ hfuel, bind, Except.bind, pure, Except.pure,
    String.ofList_toList]

end AdminConsole.Json
