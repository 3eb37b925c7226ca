import AdminConsole.Entry.Codec
import AdminConsole.Proofs.Text.Codes

/-!
Wrapped text. Base64 gives back the bytes it was made from, percent encoding the text, and what is
wrapped shows neither blank characters nor the first character of a plain entry.
-/

namespace AdminConsole

/-! ### Base64 -/

namespace Base64

theorem sextet?_sextetChar : ∀ n < 64, sextet? (sextetChar n) = some n := by decide

theorem sextetChar_ne : ∀ n < 64, sextetChar n ≠ '=' := by decide

section

variable {a b c d count : Nat}

theorem scan_value {group : List Nat} {pads : Nat} (ha : a < 64) (hgroup : group.length < 3)
    (rest : List Char) : scan group pads false count (sextetChar a :: rest) =
      scan (group ++ [a]) 0 false (count + 1) rest := by
  simp [scan, sextetChar_ne a ha, sextet?_sextetChar a ha, Nat.ne_of_lt hgroup]

theorem scan_two (ha : a < 64) (hb : b < 64) :
    scan [] 0 false count [sextetChar a, sextetChar b, '=', '='] = .ok (groupBytes [a, b]) := by
  rw [scan_value ha (by simp), scan_value hb (by simp)]
  rfl

theorem scan_three (ha : a < 64) (hb : b < 64) (hc : c < 64) :
    scan [] 0 false count [sextetChar a, sextetChar b, sextetChar c, '='] =
      .ok (groupBytes [a, b, c]) := by
  rw [scan_value ha (by simp), scan_value hb (by simp), scan_value hc (by simp)]
  rfl

theorem scan_four (ha : a < 64) (hb : b < 64) (hc : c < 64) (hd : d < 64) (rest : List Char) :
    scan [] 0 false count (sextetChar a :: sextetChar b :: sextetChar c :: sextetChar d :: rest) =
      (groupBytes [a, b, c, d] ++ ·) <$> scan [] 0 false (count + 4) rest := by
  rw [scan_value ha (by simp), scan_value hb (by simp), scan_value hc (by simp)]
  simp [scan, sextetChar_ne d hd, sextet?_sextetChar d hd]

end

theorem ofNat_toNat {b : UInt8} {n : Nat} (h : n = b.toNat) : UInt8.ofNat n = b := by
  rw [h, UInt8.ofNat_toNat]

theorem scan_encode (bytes : List UInt8) (count : Nat) :
    scan [] 0 false count (encode bytes) = .ok bytes := by
  induction bytes using encode.induct generalizing count with
  | case1 => rfl
  | case2 a =>
    have ha := a.toNat_lt
    simp only [encode]
    rw [scan_two (by omega) (by omega), groupBytes, ofNat_toNat (b := a) (by omega)]
  | case3 a b =>
    have ha := a.toNat_lt
    have hb := b.toNat_lt
    simp only [encode]
    rw [scan_three (by omega) (by omega) (by omega), groupBytes, ofNat_toNat (b := a) (by omega),
      ofNat_toNat (b := b) (by omega)]
  | case4 a b c rest ih =>
    have ha := a.toNat_lt
    have hb := b.toNat_lt
    have hc := c.toNat_lt
    simp only [encode]
    rw [scan_four (by omega) (by omega) (by omega) (by omega), ih, groupBytes,
      ofNat_toNat (b := a) (by omega), ofNat_toNat (b := b) (by omega),
      ofNat_toNat (b := c) (by omega)]
    rfl

/-- Every character is a padding or stands for six bits. -/
theorem mem_encode {x : Char} {bytes : List UInt8} (h : x ∈ encode bytes) :
    x = '=' ∨ ∃ n < 64, x = sextetChar n := by
  induction bytes using encode.induct with
  | case1 => cases h
  | case2 a =>
    have ha := a.toNat_lt
    simp only [encode, List.mem_cons, List.not_mem_nil, or_false] at h
    rcases h with h | h | h | h
    · exact .inr ⟨_, by omega, h⟩
    · exact .inr ⟨_, by omega, h⟩
    · exact .inl h
    · exact .inl h
  | case3 a b =>
    have ha := a.toNat_lt
    have hb := b.toNat_lt
    simp only [encode, List.mem_cons, List.not_mem_nil, or_false] at h
    rcases h with h | h | h | h
    · exact .inr ⟨_, by omega, h⟩
    · exact .inr ⟨_, by omega, h⟩
    · exact .inr ⟨_, by omega, h⟩
    · exact .inl h
  | case4 a b c rest ih =>
    have ha := a.toNat_lt
    have hb := b.toNat_lt
    have hc := c.toNat_lt
    simp only [encode, List.mem_cons] at h
    rcases h with h | h | h | h | h
    · exact .inr ⟨_, by omega, h⟩
    · exact .inr ⟨_, by omega, h⟩
    · exact .inr ⟨_, by omega, h⟩
    · exact .inr ⟨_, by omega, h⟩
    · exact ih h

/-- What holds of the padding and of the sixty-four characters holds of every encoding. -/
theorem forall_encode {P : Char → Prop} (hpad : P '=') (hvalue : ∀ n < 64, P (sextetChar n))
    (bytes : List UInt8) : ∀ x ∈ encode bytes, P x := by
  intro x hx
  rcases mem_encode hx with rfl | ⟨n, hn, rfl⟩
  · exact hpad
  · exact hvalue n hn

theorem head_encode (bytes : List UInt8) : ∀ x ∈ (encode bytes).head?, x ≠ '=' := by
  intro x hx
  unfold encode at hx
  split at hx
  · cases hx
  · rename_i a
    have ha := a.toNat_lt
    cases hx
    exact sextetChar_ne _ (by omega)
  · rename_i a b
    have ha := a.toNat_lt
    have hb := b.toNat_lt
    cases hx
    exact sextetChar_ne _ (by omega)
  · rename_i a b c rest
    have ha := a.toNat_lt
    have hb := b.toNat_lt
    have hc := c.toNat_lt
    cases hx
    exact sextetChar_ne _ (by omega)

/-- Bytes are read back from their base64 text. -/
theorem decode_encode (bytes : List UInt8) : decode (encode bytes) = .ok bytes := by
  have hascii : (encode bytes).any (fun c => 128 ≤ c.toNat) = false := by
    rw [List.any_eq_false]
    exact forall_encode (by decide) (by decide) bytes
  unfold decode
  rw [if_neg (by rw [hascii]; decide)]
  split
  · rename_i heq
    exact absurd rfl (head_encode bytes '=' (by rw [heq]; rfl))
  · exact scan_encode bytes 0

end Base64

/-! ### Percent encoding -/

namespace Percent

theorem bytes_cons {c : Char} (h : c ≠ '%') (rest : List Char) :
    bytes (c :: rest) = Text.Utf8.encodeChar c ++ bytes rest := by
  rw [bytes]
  rintro high low more heq -
  exact h heq

theorem bytes_escapeByte (b : UInt8) (rest : List Char) :
    bytes (escapeByte b ++ rest) = b :: bytes rest := by
  have hb := b.toNat_lt
  have hsum : b.toNat / 16 * 16 + b.toNat % 16 = b.toNat := by omega
  simp only [escapeByte, List.cons_append, List.nil_append, bytes,
    Text.hexValue?_hexDigitUpper (b.toNat / 16) (by omega),
    Text.hexValue?_hexDigitUpper (b.toNat % 16) (by omega), hsum, UInt8.ofNat_toNat]

theorem bytes_flatMap (bs : List UInt8) (rest : List Char) :
    bytes (bs.flatMap escapeByte ++ rest) = bs ++ bytes rest := by
  induction bs with
  | nil => rfl
  | cons b bs ih =>
    rw [List.flatMap_cons, List.append_assoc, bytes_escapeByte, ih, List.cons_append]

theorem bytes_encodeChar (c : Char) (rest : List Char) :
    bytes (encodeChar c ++ rest) = Text.Utf8.encodeChar c ++ bytes rest := by
  unfold encodeChar
  split
  · rename_i hplain
    apply bytes_cons
    rintro rfl
    exact absurd hplain (by decide)
  · exact bytes_flatMap _ rest

theorem bytes_encode (cs : List Char) : bytes (encode cs) = Text.Utf8.encode cs := by
  induction cs with
  | nil => rfl
  | cons c cs ih =>
    rw [encode, List.flatMap_cons, bytes_encodeChar, ← encode, ih, Text.Utf8.encode,
      Text.Utf8.encode, List.flatMap_cons]

/-- A text is read back from its percent encoding. -/
theorem decode_encode (cs : List Char) : decode (encode cs) = cs := by
  rw [decode, bytes_encode, Text.Utf8.decodeLossy_encode]

theorem ascii_of_alphanum {c : Char} (h : c.isAlphanum = true) : c.toNat < 128 := by
  have hranges : c.isAlphanum = (decide ('A'.val ≤ c.val ∧ c.val ≤ 'Z'.val) ||
      (decide ('a'.val ≤ c.val) && decide (c.val ≤ 'z'.val)) ||
      (decide ('0'.val ≤ c.val) && decide (c.val ≤ '9'.val))) := rfl
  simp only [hranges, Bool.or_eq_true, Bool.and_eq_true, decide_eq_true_eq,
    UInt32.le_iff_toNat_le] at h
  have hupper : 'Z'.val.toNat = 90 := rfl
  have hlower : 'z'.val.toNat = 122 := rfl
  have hdigit : '9'.val.toNat = 57 := rfl
  rw [Char.toNat]
  omega

theorem ascii_of_unreserved {c : Char} (h : isUnreserved c = true) : c.toNat < 128 := by
  simp only [isUnreserved, Bool.or_eq_true, decide_eq_true_eq] at h
  rcases h with (((h | rfl) | rfl) | rfl) | rfl
  · exact ascii_of_alphanum h
  · decide
  · decide
  · decide
  · decide

theorem ascii_encode {x : Char} {cs : List Char} (h : x ∈ encode cs) : x.toNat < 128 := by
  have hdigit : ∀ n < 16, (Text.hexDigitUpper n).toNat < 128 := by decide
  obtain ⟨c, -, hx⟩ := List.mem_flatMap.mp h
  unfold encodeChar at hx
  split at hx
  · rename_i hplain
    rw [List.mem_singleton.mp hx]
    exact ascii_of_unreserved hplain
  · obtain ⟨b, -, hx⟩ := List.mem_flatMap.mp hx
    have hb := b.toNat_lt
    simp only [escapeByte, List.mem_cons, List.not_mem_nil, or_false] at hx
    rcases hx with rfl | rfl | rfl
    · decide
    · exact hdigit _ (by omega)
    · exact hdigit _ (by omega)

end Percent

/-! ### Wrapped text -/

namespace Text

/-- Text that neither begins nor ends with a character of the class keeps both ends. -/
theorem stripBy_eq_self {p : Char → Bool} {cs : List Char} (hhead : ∀ c ∈ cs.head?, p c = false)
    (hlast : ∀ c ∈ cs.getLast?, p c = false) : stripBy p cs = cs := by
  have hkeep : ∀ cs : List Char, (∀ c ∈ cs.head?, p c = false) → cs.dropWhile p = cs := by
    intro cs h
    cases cs with
    | nil => rfl
    | cons c cs => rw [List.dropWhile_cons, h c rfl]; rfl
  rw [stripBy, hkeep cs hhead, hkeep cs.reverse (by rwa [List.head?_reverse]), List.reverse_reverse]

end Text

namespace Entry

theorem asciiChars_encode (position : Nat) {cs : List Char} (h : ∀ c ∈ cs, c.toNat < 128) :
    asciiChars position (Text.Utf8.encode cs) = .ok cs := by
  induction cs generalizing position with
  | nil => rfl
  | cons c cs ih =>
    rw [List.forall_mem_cons] at h
    have hbyte : (UInt8.ofNat c.toNat).toNat = c.toNat := Text.Utf8.toNat_ofNat (by omega)
    have hone : Text.Utf8.encodeChar c = [UInt8.ofNat c.toNat] := if_pos h.1
    rw [Text.Utf8.encode, List.flatMap_cons, hone, List.cons_append, List.nil_append,
      ← Text.Utf8.encode, asciiChars, hbyte, if_pos h.1, ih _ h.2, Char.ofNat_toNat]
    rfl

theorem unwrap_wrap (cs : List Char) : unwrap (wrap cs) = .ok cs := by
  simp only [unwrap, wrap, Base64.decode_encode]
  rw [asciiChars_encode 0 fun c hc => Percent.ascii_encode hc]
  exact congrArg Except.ok (Percent.decode_encode cs)

theorem strip_wrap (cs : List Char) : Text.strip (wrap cs) = wrap cs := by
  have hblank : ∀ c ∈ wrap cs, Text.isBlank c = false :=
    Base64.forall_encode (by decide) (by decide) _
  exact Text.stripBy_eq_self (fun c hc => hblank c (List.mem_of_mem_head? hc))
    fun c hc => hblank c (List.mem_of_getLast? hc)

theorem wrap_ne_nil {cs : List Char} (h : cs ≠ []) : wrap cs ≠ [] := by
  intro hnil
  have hback := unwrap_wrap cs
  rw [hnil] at hback
  exact h (Except.ok.inj hback).symm

theorem isPlain_wrap (cs : List Char) : isPlain (wrap cs) = false := by
  have hfirst : ∀ c ∈ wrap cs, c ≠ '\x7b' ∧ c ≠ '[' :=
    Base64.forall_encode (by decide) (by decide) _
  unfold isPlain
  split
  · rename_i heq
    exact absurd rfl (hfirst '\x7b' (by rw [heq]; exact List.mem_cons_self)).1
  · rename_i heq
    exact absurd rfl (hfirst '[' (by rw [heq]; exact List.mem_cons_self)).2
  · rfl

/-- The text of an entry is what was wrapped. -/
theorem textOf_wrap {cs : List Char} (h : cs ≠ []) : textOf (Text.strip (wrap cs)) = .ok cs := by
  rw [strip_wrap, textOf, if_neg (by simpa using wrap_ne_nil h), isPlain_wrap, if_neg (by decide),
    unwrap_wrap]

end Entry

end AdminConsole
