import AdminConsole.Text.Utf8

/-!
Characters and their codes. Hexadecimal digits are read back in either case, and the UTF-8 bytes
of a text are read as its characters, without a defect.
-/

namespace AdminConsole.Text

/-! ### Hexadecimal digits -/

theorem hexValue?_hexDigit : ∀ d < 16, hexValue? (hexDigit d) = some d := by decide

theorem hexValue?_hexDigitUpper : ∀ d < 16, hexValue? (hexDigitUpper d) = some d := by decide

theorem hex_four (n : Nat) :
    hex 4 n = [hexDigit (n / 4096 % 16), hexDigit (n / 256 % 16), hexDigit (n / 16 % 16),
      hexDigit (n % 16)] := by
  simp only [hex, List.nil_append, List.cons_append, Nat.div_div_eq_div_mul]

theorem hex4?_hex {n : Nat} (h : n < 0x10000) :
    hex4? (hexDigit (n / 4096 % 16)) (hexDigit (n / 256 % 16)) (hexDigit (n / 16 % 16))
      (hexDigit (n % 16)) = some n := by
  have hlt : ∀ k, k % 16 < 16 := fun k => Nat.mod_lt k (by decide)
  simp only [hex4?, hexValue?_hexDigit _ (hlt _)]
  simp only [bind, pure, Option.bind]
  congr 1
  omega

namespace Utf8

/-! ### One character -/

theorem toNat_ofNat {n : Nat} (h : n < 256) : (UInt8.ofNat n).toNat = n :=
  UInt8.toNat_ofNat_of_lt' h

theorem items_lead {b : UInt8} {p : Partial} (h : lead b = some (.inr p)) (rest : List UInt8) :
    items none (b :: rest) = items (some p) rest := by
  rw [items, h]

theorem items_more {p : Partial} {b : UInt8} (hrange : p.low ≤ b.toNat ∧ b.toNat ≤ p.high)
    (howed : p.owed ≠ 1) (rest : List UInt8) :
    items (some p) (b :: rest) = items (some ⟨p.bytes ++ [b], p.owed - 1, 0x80, 0xBF,
      p.value * 0x40 + (b.toNat - 0x80)⟩) rest := by
  rw [items, if_pos hrange]
  dsimp only
  rw [if_neg howed]

theorem items_last {p : Partial} {b : UInt8} (hrange : p.low ≤ b.toNat ∧ b.toNat ≤ p.high)
    (howed : p.owed = 1) (rest : List UInt8) :
    items (some p) (b :: rest) =
      .char (Char.ofNat (p.value * 0x40 + (b.toNat - 0x80))) :: items none rest := by
  rw [items, if_pos hrange]
  dsimp only
  rw [if_pos howed]

/-- A first byte begins a character of several bytes: how many are owed, the value so far, and
what the next byte may be. -/
def Begins (b : UInt8) (owed value next : Nat) : Prop :=
  ∃ p, lead b = some (.inr p) ∧ p.owed = owed ∧ p.value = value ∧ p.low ≤ next ∧ next ≤ p.high

theorem begins_two {n : Nat} (hlow : 0x80 ≤ n) (hhigh : n < 0x800) :
    Begins (UInt8.ofNat (0xC0 + n / 0x40)) 1 (n / 0x40) (0x80 + n % 0x40) := by
  have hbyte : (UInt8.ofNat (0xC0 + n / 0x40)).toNat = 0xC0 + n / 0x40 := toNat_ofNat (by omega)
  simp only [Begins, lead, hbyte]
  rw [if_neg (by omega), if_neg (by omega), if_pos (by omega)]
  refine ⟨_, rfl, rfl, ?_, ?_, ?_⟩ <;> dsimp only <;> omega

theorem begins_three {n : Nat} (hlow : 0x800 ≤ n) (hhigh : n < 0x10000)
    (hvalid : n < 0xD800 ∨ 0xE000 ≤ n) :
    Begins (UInt8.ofNat (0xE0 + n / 0x1000)) 2 (n / 0x1000) (0x80 + n / 0x40 % 0x40) := by
  have hbyte : (UInt8.ofNat (0xE0 + n / 0x1000)).toNat = 0xE0 + n / 0x1000 :=
    toNat_ofNat (by omega)
  simp only [Begins, lead, hbyte]
  rw [if_neg (by omega), if_neg (by omega), if_neg (by omega)]
  -- The first and the last byte of the range narrow the byte behind them.
  split
  · refine ⟨_, rfl, rfl, ?_, ?_, ?_⟩ <;> dsimp only <;> omega
  · split
    · refine ⟨_, rfl, rfl, ?_, ?_, ?_⟩ <;> dsimp only <;> omega
    · rw [if_pos (by omega)]
      refine ⟨_, rfl, rfl, ?_, ?_, ?_⟩ <;> dsimp only <;> omega

theorem begins_four {n : Nat} (hlow : 0x10000 ≤ n) (hhigh : n < 0x110000) :
    Begins (UInt8.ofNat (0xF0 + n / 0x40000)) 3 (n / 0x40000) (0x80 + n / 0x1000 % 0x40) := by
  have hbyte : (UInt8.ofNat (0xF0 + n / 0x40000)).toNat = 0xF0 + n / 0x40000 :=
    toNat_ofNat (by omega)
  simp only [Begins, lead, hbyte]
  rw [if_neg (by omega), if_neg (by omega), if_neg (by omega), if_neg (by omega),
    if_neg (by omega), if_neg (by omega)]
  split
  · refine ⟨_, rfl, rfl, ?_, ?_, ?_⟩ <;> dsimp only <;> omega
  · split
    · refine ⟨_, rfl, rfl, ?_, ?_, ?_⟩ <;> dsimp only <;> omega
    · rw [if_pos (by omega)]
      refine ⟨_, rfl, rfl, ?_, ?_, ?_⟩ <;> dsimp only <;> omega

theorem items_encodeChar (c : Char) (rest : List UInt8) :
    items none (encodeChar c ++ rest) = .char c :: items none rest := by
  have hvalid : c.toNat < 0xD800 ∨ (0xDFFF < c.toNat ∧ c.toNat < 0x110000) := c.valid
  have hself : Char.ofNat c.toNat = c := Char.ofNat_toNat c
  have htail : ∀ k, (UInt8.ofNat (0x80 + k % 0x40)).toNat = 0x80 + k % 0x40 :=
    fun k => toNat_ofNat (by omega)
  simp only [encodeChar]
  generalize c.toNat = n at hvalid hself
  split
  · rename_i hone
    have hbyte : (UInt8.ofNat n).toNat = n := toNat_ofNat (by omega)
    simp only [List.cons_append, List.nil_append, items, lead, hbyte, if_pos hone, hself]
  · split
    · obtain ⟨p, hlead, howed, hvalue, hrange⟩ := begins_two (n := n) (by omega) (by omega)
      have hsum : n / 0x40 * 0x40 + n % 0x40 = n := by omega
      simp only [List.cons_append, List.nil_append]
      rw [items_lead hlead, items_last (by rwa [htail]) howed, htail, hvalue,
        Nat.add_sub_cancel_left, hsum, hself]
    · split
      · obtain ⟨p, hlead, howed, hvalue, hrange⟩ :=
          begins_three (n := n) (by omega) (by omega) (by omega)
        have hsum : (n / 0x1000 * 0x40 + n / 0x40 % 0x40) * 0x40 + n % 0x40 = n := by omega
        simp only [List.cons_append, List.nil_append]
        rw [items_lead hlead, items_more (by rwa [htail]) (by omega),
          items_last (by simp only [htail]; omega) (by simp only [howed])]
        simp only [htail, hvalue, Nat.add_sub_cancel_left, hsum, hself]
      · obtain ⟨p, hlead, howed, hvalue, hrange⟩ :=
          begins_four (n := n) (by omega) (by omega)
        have hsum : ((n / 0x40000 * 0x40 + n / 0x1000 % 0x40) * 0x40 + n / 0x40 % 0x40) * 0x40 +
            n % 0x40 = n := by omega
        simp only [List.cons_append, List.nil_append]
        rw [items_lead hlead, items_more (by rwa [htail]) (by omega),
          items_more (by simp only [htail]; omega) (by simp only [howed]; decide),
          items_last (by simp only [htail]; omega) (by simp only [howed])]
        simp only [htail, hvalue, Nat.add_sub_cancel_left, hsum, hself]

/-! ### Texts -/

theorem items_encode (cs : List Char) : items none (encode cs) = cs.map .char := by
  induction cs with
  | nil => rfl
  | cons c cs ih =>
    rw [encode, List.flatMap_cons, items_encodeChar, ← encode, ih, List.map_cons]

/-- A text is read back from its UTF-8 bytes. -/
theorem decodeLossy_encode (cs : List Char) : decodeLossy (encode cs) = cs := by
  rw [decodeLossy, items_encode, List.map_map]
  exact List.map_id cs

theorem charsOf_map_char (position : Nat) (cs : List Char) :
    charsOf position (cs.map .char) = .ok cs := by
  induction cs generalizing position with
  | nil => rfl
  | cons c cs ih =>
    rw [List.map_cons, charsOf, ih]
    rfl

/-- Strict reading gives a text back from its UTF-8 bytes as well. -/
theorem decode_encode (cs : List Char) : decode (encode cs) = .ok cs := by
  rw [decode, items_encode, charsOf_map_char]

end Utf8

end AdminConsole.Text
