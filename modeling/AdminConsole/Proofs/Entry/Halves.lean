import AdminConsole.Proofs.Entry.RoundTrip
import AdminConsole.Session.Credentials

/-!
Entries that hold text. An escape in an entry may stand for half a surrogate pair whose other half is
missing. A string with such a half has no UTF-8 form, so it cannot be sent. Nothing that is written has
one.
-/

namespace AdminConsole

namespace Json

/-- The units that the characters and the escapes of a JSON text stand for. -/
def units : List Char → List Nat
  | '\\' :: 'u' :: a :: b :: c :: d :: rest =>
    match Text.hex4? a b c d with
    | some unit => unit :: units rest
    | none => units rest
  | '\\' :: c :: rest => c.toNat :: units rest
  | c :: rest => c.toNat :: units rest
  | [] => []

/-- No escape of a JSON text stands for half a surrogate pair without its other half. -/
def HoldsText (cs : List Char) : Prop := ∀ n ∈ Text.joinUnits (units cs), Text.isHalf n = false

variable {cs rest : List Char}

theorem units_plain {c : Char} (h : c ≠ '\\') (rest : List Char) :
    units (c :: rest) = c.toNat :: units rest := by
  conv => lhs; unfold units
  split
  · rename_i heq
    exact absurd (List.cons.inj heq).1 h
  · rename_i heq
    exact absurd (List.cons.inj heq).1 h
  · rename_i heq
    obtain ⟨rfl, rfl⟩ := List.cons.inj heq
    rfl
  · rename_i heq
    cases heq

theorem units_simple {c : Char} (h : c ≠ 'u') (rest : List Char) :
    units ('\\' :: c :: rest) = c.toNat :: units rest := by
  conv => lhs; unfold units
  split
  · rename_i heq
    exact absurd (List.cons.inj (List.cons.inj heq).2).1 h
  · rename_i heq
    obtain ⟨-, htail⟩ := List.cons.inj heq
    obtain ⟨rfl, rfl⟩ := List.cons.inj htail
    rfl
  · rename_i hslash heq
    obtain ⟨rfl, htail⟩ := List.cons.inj heq
    exact absurd htail.symm (hslash c rest rfl)
  · rename_i heq
    cases heq

theorem units_escape {n : Nat} (h : n < 0x10000) (rest : List Char) :
    units ('\\' :: 'u' :: (Text.hex 4 n ++ rest)) = n :: units rest := by
  rw [Text.hex_four]
  simp only [List.cons_append, List.nil_append, units, Text.hex4?_hex h]

/-- A unit that is no half holds text with whatever holds text behind it. -/
theorem HoldsText.cons {n : Nat} (h : HoldsText rest) (hn : Text.isHalf n = false)
    (hunits : units cs = n :: units rest) : HoldsText cs := by
  rw [HoldsText, hunits, Text.joinUnits_cons (Bool.or_eq_false_iff.mp hn).1, List.forall_mem_cons]
  exact ⟨hn, h⟩

theorem HoldsText.plain {c : Char} (h : HoldsText rest) (hc : c ≠ '\\') : HoldsText (c :: rest) :=
  h.cons (Text.isHalf_toNat c) (units_plain hc rest)

theorem HoldsText.unitEscape (h : HoldsText rest) (c : Char) : HoldsText (unitEscape c ++ rest) := by
  have hvalid : c.toNat < 0xD800 ∨ (0xDFFF < c.toNat ∧ c.toNat < 0x110000) := c.valid
  have hwhole := Text.isHalf_toNat c
  simp only [Json.unitEscape]
  generalize c.toNat = n at hvalid hwhole
  split
  · rename_i hfirst
    exact h.cons hwhole (units_escape hfirst rest)
  · have hhigh : Text.isHighUnit (0xD800 + (n - 0x10000) / 0x400) = true := by
      simp only [Text.isHighUnit, Bool.and_eq_true, decide_eq_true_eq]
      omega
    have hlow : Text.isLowUnit (0xDC00 + (n - 0x10000) % 0x400) = true := by
      simp only [Text.isLowUnit, Bool.and_eq_true, decide_eq_true_eq]
      omega
    simp only [List.cons_append, List.append_assoc]
    rw [HoldsText, units_escape (by omega), units_escape (by omega), Text.joinUnits_pair hhigh hlow,
      List.forall_mem_cons]
    exact ⟨Text.isHalf_joined _ _, h⟩

theorem HoldsText.escapeChar (h : HoldsText rest) (asciiOnly : Bool) (c : Char) :
    HoldsText (escapeChar asciiOnly c ++ rest) := by
  have hsimple : ∀ mark : Char, mark ≠ 'u' → HoldsText ('\\' :: mark :: rest) :=
    fun mark hmark => h.cons (Text.isHalf_toNat mark) (units_simple hmark rest)
  unfold Json.escapeChar
  split
  · exact hsimple '"' (by decide)
  split
  · exact hsimple '\\' (by decide)
  rename_i hslash
  split
  · exact hsimple 'n' (by decide)
  split
  · exact hsimple 'r' (by decide)
  split
  · exact hsimple 't' (by decide)
  split
  · exact hsimple 'b' (by decide)
  split
  · exact hsimple 'f' (by decide)
  split
  · exact h.unitEscape c
  split
  · exact h.unitEscape c
  · exact h.plain hslash

theorem HoldsText.writeText (h : HoldsText rest) (asciiOnly : Bool) (s : String) :
    HoldsText (writeText asciiOnly s ++ rest) := by
  have hchars : ∀ chars : List Char,
      HoldsText (chars.flatMap (Json.escapeChar asciiOnly) ++ '"' :: rest) := by
    intro chars
    induction chars with
    | nil => exact h.plain (by decide)
    | cons c chars ih =>
      rw [List.flatMap_cons, List.append_assoc]
      exact ih.escapeChar asciiOnly c
  rw [Json.writeText, List.append_assoc, List.cons_append]
  exact (hchars s.toList).plain (by decide)

end Json

namespace Entry

/-- The text behind an entry has no half of a surrogate pair without its other half. -/
def HoldsText (entry : String) : Prop :=
  ∀ text, textOf (Text.strip entry.toList) = .ok text → Json.HoldsText text

/-- Credentials that are stored hold text. -/
theorem holdsText_stored (wrapped : Bool) (credentials : Credentials) :
    HoldsText (String.ofList (stored wrapped credentials.toJson)) := by
  intro text htext
  rw [String.toList_ofList, textOf_stored (.inr rfl)] at htext
  cases htext
  have hwritten : credentials.toJson.write .compact = '\x7b' :: (Json.writeText true "username" ++
      ':' :: (Json.writeText true credentials.username ++ ',' :: (Json.writeText true "password" ++
      ':' :: (Json.writeText true credentials.password ++ ['\x7d'])))) := by
    simp [Json.write, Json.writeAt, Json.writeEntries, Credentials.toJson, Json.Layout.compact,
      Json.Layout.gap]
  have hnone : Json.HoldsText [] := by simp [Json.HoldsText, Json.units, Text.joinUnits]
  have hclosing := hnone.plain (c := '\x7d') (by decide)
  have hpassword := (hclosing.writeText true credentials.password).plain (c := ':') (by decide)
  have hcomma := (hpassword.writeText true "password").plain (c := ',') (by decide)
  have husername := (hcomma.writeText true credentials.username).plain (c := ':') (by decide)
  rw [hwritten]
  exact (husername.writeText true "username").plain (by decide)

end Entry

end AdminConsole
