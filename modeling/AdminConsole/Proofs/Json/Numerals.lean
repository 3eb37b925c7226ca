import AdminConsole.Json.Reader
import AdminConsole.Json.Writer
import AdminConsole.Proofs.Number.Rounding

/-!
Numerals. A numeral is read up to its end, if what follows cannot belong to it; and the text that
is written for a number is a numeral that is read as this number.
-/

namespace AdminConsole.Json

/-- What follows a numeral: nothing that the numeral could go on with. -/
def Ends (rest : List Char) : Prop :=
  ∀ c ∈ rest.head?, c.isDigit = false ∧ c ≠ '.' ∧ c ≠ 'e' ∧ c ≠ 'E'

theorem ends_nil : Ends [] := by
  intro c h
  cases h

theorem Ends.head {c : Char} {rest : List Char} (h : Ends (c :: rest)) :
    c.isDigit = false ∧ c ≠ '.' ∧ c ≠ 'e' ∧ c ≠ 'E' := h c rfl

/-! ### Runs of digits -/

def Digits (cs : List Char) : Prop := ∀ c ∈ cs, c.isDigit = true

theorem digits_toDigits (n : Nat) : Digits (Nat.toDigits 10 n) :=
  fun _ h => Nat.isDigit_of_mem_toDigits (by decide) (by decide) h

theorem digits_replicate (n : Nat) : Digits (List.replicate n '0') := by
  intro c h
  rw [List.eq_of_mem_replicate h]
  rfl

theorem Digits.append {a b : List Char} (ha : Digits a) (hb : Digits b) : Digits (a ++ b) :=
  fun c h => (List.mem_append.mp h).elim (ha c) (hb c)

theorem Digits.sublist {a b : List Char} (hb : Digits b) (h : a.Sublist b) : Digits a :=
  fun c hc => hb c (h.subset hc)

theorem Digits.takeWhile {ds rest : List Char} (h : Digits ds)
    (hrest : ∀ c ∈ rest.head?, c.isDigit = false) : (ds ++ rest).takeWhile Char.isDigit = ds := by
  rw [List.takeWhile_append_of_pos h]
  cases rest with
  | nil => simp
  | cons c rest => simp [hrest c rfl]

theorem Digits.dropWhile {ds rest : List Char} (h : Digits ds)
    (hrest : ∀ c ∈ rest.head?, c.isDigit = false) : (ds ++ rest).dropWhile Char.isDigit = rest := by
  rw [List.dropWhile_append_of_pos h]
  cases rest with
  | nil => rfl
  | cons c rest => simp [hrest c rfl]

/-! ### Parts of a numeral -/

/-- A whole part: zero, or digits that do not begin with one. -/
inductive Whole : List Char → Prop where
  | zero : Whole ['0']
  | digits {c : Char} {cs : List Char} : Digits (c :: cs) → c ≠ '0' → Whole (c :: cs)

theorem whole_toDigits (n : Nat) : Whole (Nat.toDigits 10 n) := by
  have hdigits := digits_toDigits n
  by_cases hn : n = 0
  · subst hn
    exact .zero
  · have hhead : ∃ c cs, Nat.toDigits 10 n = c :: cs ∧ c ≠ '0' := by
      clear hdigits
      induction n using Nat.strongRecOn with
      | ind n ih =>
        rw [Nat.toDigits_eq_if (by decide)]
        split
        · rename_i hlt
          exact ⟨_, [], rfl, (show ∀ d < 10, d ≠ 0 → d.digitChar ≠ '0' by decide) n hlt hn⟩
        · obtain ⟨c, cs, hcs, hc⟩ := ih (n / 10) (by omega) (by omega)
          exact ⟨c, _, by rw [hcs, List.cons_append], hc⟩
    obtain ⟨c, cs, hcs, hc⟩ := hhead
    rw [hcs] at hdigits ⊢
    exact .digits hdigits hc

theorem Whole.allDigits {w : List Char} (h : Whole w) : Digits w := by
  cases h with
  | zero => exact digits_replicate 1
  | digits hdigits _ => exact hdigits

theorem Whole.ne_nil {w : List Char} (h : Whole w) : w ≠ [] := by
  cases h <;> simp

theorem Whole.take {w : List Char} (h : Whole w) {k : Nat} (hk : 0 < k) : Whole (w.take k) := by
  obtain ⟨k, rfl⟩ := Nat.exists_eq_succ_of_ne_zero (Nat.ne_of_gt hk)
  cases h with
  | zero =>
    rw [List.take_succ_cons, List.take_nil]
    exact .zero
  | digits hdigits hhead =>
    rw [List.take_succ_cons]
    refine .digits (hdigits.sublist ?_) hhead
    exact (List.take_sublist k _).cons_cons _

/-- Zeros may stand behind a whole part that is not zero. -/
theorem Whole.append {n : Nat} (hn : n ≠ 0) {zeros : List Char} (hzeros : Digits zeros) :
    Whole (Nat.toDigits 10 n ++ zeros) := by
  have hwhole := whole_toDigits n
  have hvalue : Nat.ofDigitChars 10 (Nat.toDigits 10 n) 0 = n := Nat.ofDigitChars_ten_toDigits
  generalize Nat.toDigits 10 n = ds at hwhole hvalue
  cases hwhole with
  | zero => exact absurd hvalue.symm hn
  | digits hdigits hhead => exact .digits (hdigits.append hzeros) hhead

theorem wholeDigits_append {w : List Char} (h : Whole w) (rest : List Char)
    (hrest : ∀ c ∈ rest.head?, c.isDigit = false) : wholeDigits (w ++ rest) = some (w, rest) := by
  cases h with
  | zero => rfl
  | digits hdigits hhead =>
    unfold wholeDigits
    split
    · rename_i heq
      cases heq
      exact absurd rfl hhead
    · rw [hdigits.takeWhile hrest, hdigits.dropWhile hrest]

theorem fraction_append {f rest : List Char} (h : Digits f) (hf : f ≠ [])
    (hrest : ∀ c ∈ rest.head?, c.isDigit = false) : fraction ('.' :: f ++ rest) = (f, rest) := by
  simp only [fraction, List.cons_append]
  rw [h.takeWhile hrest, h.dropWhile hrest]
  cases f with
  | nil => exact absurd rfl hf
  | cons c cs => rfl

theorem fraction_none {rest : List Char} (h : ∀ c ∈ rest.head?, c ≠ '.') :
    fraction rest = ([], rest) := by
  cases rest with
  | nil => rfl
  | cons c rest =>
    unfold fraction
    split
    · rename_i heq
      cases heq
      exact absurd rfl (h '.' rfl)
    · rfl

theorem exponent_append (negative : Bool) {size rest : List Char} (h : Digits size)
    (hsize : size ≠ []) (hrest : ∀ c ∈ rest.head?, c.isDigit = false) :
    exponent ('e' :: (if negative then '-' else '+') :: size ++ rest) =
      (some (if negative then -(Nat.ofDigitChars 10 size 0 : Int) else Nat.ofDigitChars 10 size 0),
        rest) := by
  have hsign : Text.sign ((if negative then '-' else '+') :: (size ++ rest)) =
      (negative, size ++ rest) := by
    cases negative <;> rfl
  simp only [exponent, List.cons_append, hsign, true_or, if_true]
  rw [h.takeWhile hrest, h.dropWhile hrest]
  cases size with
  | nil => exact absurd rfl hsize
  | cons c cs => rfl

theorem exponent_none {rest : List Char} (h : Ends rest) : exponent rest = (none, rest) := by
  cases rest with
  | nil => rfl
  | cons c rest =>
    have hmark : ¬ (c = 'e' ∨ c = 'E') := by simp [h.head]
    simp only [exponent, if_neg hmark]

/-! ### Numerals -/

/-- A text that is read as a number, which its minus sign decides as well. -/
structure Numeral (cs : List Char) (number : Bool → Number) : Prop where
  head : ∃ c more, cs = c :: more ∧ c.isDigit = true
  reads : ∀ start negative rest, Ends rest →
    readUnsigned start negative (cs ++ rest) = .ok (number negative, rest)

theorem Whole.head {w : List Char} (h : Whole w) (more : List Char) :
    ∃ c rest, w ++ more = c :: rest ∧ c.isDigit = true := by
  have hdigits := h.allDigits
  cases w with
  | nil => exact absurd rfl h.ne_nil
  | cons c cs => exact ⟨c, cs ++ more, rfl, hdigits c List.mem_cons_self⟩

theorem numeral_whole {n : Nat} (h : (Nat.toDigits 10 n).length ≤ digitLimit) :
    Numeral (Nat.toDigits 10 n)
      fun negative => .whole (if negative then -(n : Int) else n) := by
  have hwhole := whole_toDigits n
  refine ⟨by simpa using hwhole.head [], fun start negative rest hrest => ?_⟩
  have hw := wholeDigits_append hwhole _ fun c hc => (hrest c hc).1
  simp only [readUnsigned, hw, fraction_none fun c hc => (hrest c hc).2.1, exponent_none hrest]
  simp [Nat.not_lt.mpr h, Nat.ofDigitChars_ten_toDigits]

/-- The value of a numeral with a point and an exponent. -/
def value (w f : List Char) (power : Int) (negative : Bool) : Number :=
  .real (.ofDecimal negative (Nat.ofDigitChars 10 (w ++ f) 0) (power - f.length))

theorem numeral_point {w f : List Char} (hw : Whole w) (hf : Digits f) (hne : f ≠ []) :
    Numeral (w ++ '.' :: f) (value w f 0) := by
  refine ⟨hw.head _, fun start negative rest hrest => ?_⟩
  have hwhole := wholeDigits_append hw ('.' :: f ++ rest) (by simp [Char.isDigit])
  have hfraction := fraction_append hf hne fun c hc => (hrest c hc).1
  rw [List.append_assoc]
  simp only [readUnsigned, hwhole, hfraction, exponent_none hrest]
  simp [hne, value]

theorem numeral_exponent {w f size : List Char} (hw : Whole w) (hf : Digits f)
    (hsize : Digits size) (hne : size ≠ []) (below : Bool) :
    Numeral (w ++ (if f = [] then [] else '.' :: f) ++
        'e' :: (if below then '-' else '+') :: size)
      (value w f (if below then -(Nat.ofDigitChars 10 size 0 : Int)
        else Nat.ofDigitChars 10 size 0)) := by
  refine ⟨by rw [List.append_assoc]; exact hw.head _, fun start negative rest hrest => ?_⟩
  have hexponent := exponent_append below hsize hne fun c hc => (hrest c hc).1
  generalize hmark : 'e' :: (if below then '-' else '+') :: size = mark at hexponent ⊢
  have hhead : ∀ c ∈ (mark ++ rest).head?, c = 'e' := by
    rw [← hmark]
    simp
  have hfraction : fraction ((if f = [] then [] else '.' :: f) ++ (mark ++ rest)) =
      (f, mark ++ rest) := by
    split
    · rename_i hnone
      subst hnone
      exact fraction_none fun c hc => by rw [hhead c hc]; decide
    · rename_i hsome
      exact fraction_append hf hsome fun c hc => by rw [hhead c hc]; rfl
  have hwhole := wholeDigits_append hw ((if f = [] then [] else '.' :: f) ++ (mark ++ rest)) (by
      intro c hc
      split at hc
      · rw [hhead c hc]; rfl
      · cases hc; rfl)
  rw [List.append_assoc, List.append_assoc]
  simp only [readUnsigned, hwhole, hfraction, hexponent]
  simp [value]

/-! ### Written numbers -/

theorem digits_padded (n : Nat) :
    Digits (if (Nat.toDigits 10 n).length < 2 then '0' :: Nat.toDigits 10 n
      else Nat.toDigits 10 n) := by
  split
  · exact (digits_replicate 1).append (digits_toDigits n)
  · exact digits_toDigits n

theorem ofDigitChars_padded (n : Nat) :
    Nat.ofDigitChars 10 (if (Nat.toDigits 10 n).length < 2 then '0' :: Nat.toDigits 10 n
      else Nat.toDigits 10 n) 0 = n := by
  split
  · exact Nat.ofDigitChars_ten_toDigits
  · exact Nat.ofDigitChars_ten_toDigits

section

open Binary64

theorem value_eq {w f : List Char} {power : Int} (digits k : Nat) (exponent : Int)
    (hdigits : Nat.ofDigitChars 10 (w ++ f) 0 = digits * pow10 k)
    (hexponent : power - f.length = exponent - k) :
    value w f power = fun negative => .real (ofDecimal negative digits exponent) := by
  funext negative
  rw [value, hdigits, hexponent, ofDecimal_shift]

/-- The text of a decimal is a numeral for it, wherever its point stands. -/
theorem numeral_decimal (d : Decimal) :
    Numeral d.text fun negative => .real (ofDecimal negative d.digits d.exponent) := by
  have hvalue : Nat.ofDigitChars 10 (Nat.toDigits 10 d.digits) 0 = d.digits :=
    Nat.ofDigitChars_ten_toDigits
  have hone : d.digits = d.digits * pow10 0 := (Nat.mul_one d.digits).symm
  have hdigits := digits_toDigits d.digits
  have hwhole := whole_toDigits d.digits
  have happend : d.digits ≠ 0 → ∀ zeros, Digits zeros → Whole (Nat.toDigits 10 d.digits ++ zeros) :=
    fun hzero _ => Whole.append hzero
  unfold Decimal.text
  generalize Nat.toDigits 10 d.digits = ds at hvalue hdigits hwhole happend
  have hlength : 0 < ds.length := List.length_pos_iff.mpr hwhole.ne_nil
  dsimp only
  split
  · rename_i hzero
    have hpoint := numeral_point .zero (digits_replicate 1) (by simp)
    have hsame : value ['0'] (List.replicate 1 '0') 0 = fun negative =>
        .real (ofDecimal negative d.digits d.exponent) := by
      funext negative
      rw [value, ofDecimal_eq, ofDecimal_eq, hzero, decimalRank_zero]
      exact congrArg (fun rank => Number.real (ofRank negative rank)) (decimalRank_zero _)
    rwa [hsame] at hpoint
  · rename_i hzero
    split
    · rename_i hsmall
      have hpoint := numeral_point .zero
        ((digits_replicate (-((ds.length : Int) + d.exponent)).toNat).append hdigits)
        (by simp [hwhole.ne_nil])
      rw [value_eq d.digits 0 d.exponent] at hpoint
      · simpa using hpoint
      · rw [← hone, ← hvalue]
        simp [Nat.ofDigitChars_cons, Nat.ofDigitChars_append, Nat.ofDigitChars_replicate_zero]
      · simp only [List.length_append, List.length_replicate]
        omega
    · split
      · rename_i hmiddle
        split
        · rename_i hbelow
          have hpoint := numeral_point
            (hwhole.take (k := ((ds.length : Int) + d.exponent).toNat) (by omega))
            (hdigits.sublist (List.drop_sublist ((ds.length : Int) + d.exponent).toNat ds))
            (by rw [Ne, List.drop_eq_nil_iff]; omega)
          rw [value_eq d.digits 0 d.exponent] at hpoint
          · exact hpoint
          · rw [List.take_append_drop, hvalue, ← hone]
          · simp only [List.length_drop]
            omega
        · rename_i habove
          have hpoint := numeral_point (happend hzero _ (digits_replicate d.exponent.toNat))
            (digits_replicate 1) (by simp)
          rw [value_eq d.digits (d.exponent.toNat + 1) d.exponent] at hpoint
          · exact hpoint
          · rw [List.append_assoc, List.replicate_append_replicate, Nat.ofDigitChars_append,
              hvalue, Nat.ofDigitChars_replicate_zero]
            exact Nat.mul_comm _ _
          · simp only [List.length_replicate]
            omega
      · rename_i hfar
        have hexponent := numeral_exponent (hwhole.take (k := 1) (by decide))
          (hdigits.sublist (List.drop_sublist 1 ds))
          (digits_padded ((ds.length : Int) + d.exponent - 1).natAbs) (by split <;> simp)
          (decide ((ds.length : Int) + d.exponent - 1 < 0))
        rw [ofDigitChars_padded, value_eq d.digits 0 d.exponent] at hexponent
        · have hshort : ds.drop 1 = [] ↔ ds.length = 1 := by
            rw [List.drop_eq_nil_iff]
            omega
          simpa only [hshort, decide_eq_true_eq] using hexponent
        · rw [List.take_append_drop, hvalue, ← hone]
        · simp only [List.length_drop, decide_eq_true_eq]
          split <;> omega

end

/-! ### Numbers among other values -/

theorem readWord?_digit {c : Char} (h : c.isDigit = true) (more : List Char) :
    readWord? (c :: more) = none := by
  simp only [readWord?, Option.map_eq_none_iff, List.find?_eq_none, words, List.forall_mem_cons]
  refine ⟨?_, ?_, ?_, ?_, ?_, ?_, by simp⟩ <;>
  · intro hword
    obtain ⟨rfl, -⟩ := List.cons_prefix_cons.mp (List.isPrefixOf_iff_prefix.mp hword)
    cases h

theorem readWord?_minus {c : Char} (h : c.isDigit = true) (more : List Char) :
    readWord? ('-' :: c :: more) = none := by
  have hword : ¬ "Infinity".toList <+: c :: more := by
    intro hword
    obtain ⟨rfl, -⟩ := List.cons_prefix_cons.mp hword
    cases h
  simpa [readWord?, words] using hword

theorem readNumber_digit {c : Char} (h : c.isDigit = true) (more : List Char) :
    readNumber (c :: more) = readUnsigned (c :: more) false (c :: more) := by
  unfold readNumber
  split
  · rename_i heq
    cases heq
    cases h
  · rfl

/-- A value that is neither a string, a list nor an object is a word or a number. -/
theorem readValue_plain {c : Char} (hquote : c ≠ '"') (hbracket : c ≠ '[') (hbrace : c ≠ '\x7b')
    (fuel : Nat) (more : List Char) :
    readValue (fuel + 1) (c :: more) =
      match readWord? (c :: more) with
      | some found => .ok found
      | none => (readNumber (c :: more)).map fun found => (.number found.1, found.2) := by
  rw [readValue]
  · cases readWord? (c :: more) with
    | some found => rfl
    | none => cases readNumber (c :: more) <;> rfl
  · rintro rest heq
    exact hquote (List.cons.inj heq).1
  · rintro rest heq
    exact hbracket (List.cons.inj heq).1
  · rintro rest heq
    exact hbrace (List.cons.inj heq).1

theorem readValue_word {c : Char} {more rest : List Char} {v : Json} (hquote : c ≠ '"')
    (hbracket : c ≠ '[') (hbrace : c ≠ '\x7b') (h : readWord? (c :: more) = some (v, rest))
    (fuel : Nat) : readValue (fuel + 1) (c :: more) = .ok (v, rest) := by
  rw [readValue_plain hquote hbracket hbrace, h]

theorem ne_of_digit {c d : Char} (h : c.isDigit = true) (hd : d.isDigit = false) : c ≠ d := by
  rintro rfl
  rw [h] at hd
  cases hd

namespace Numeral

variable {cs rest : List Char} {number : Bool → Number}

theorem readValue (h : Numeral cs number) (hrest : Ends rest) (fuel : Nat) :
    readValue (fuel + 1) (cs ++ rest) = .ok (.number (number false), rest) := by
  obtain ⟨c, more, rfl, hc⟩ := h.head
  rw [List.cons_append, readValue_plain (ne_of_digit hc rfl) (ne_of_digit hc rfl)
    (ne_of_digit hc rfl), readWord?_digit hc, readNumber_digit hc, ← List.cons_append,
    h.reads _ _ _ hrest]
  rfl

theorem readValue_minus (h : Numeral cs number) (hrest : Ends rest) (fuel : Nat) :
    Json.readValue (fuel + 1) ('-' :: cs ++ rest) = .ok (.number (number true), rest) := by
  have hreads := h.reads ('-' :: (cs ++ rest)) true rest hrest
  obtain ⟨c, more, rfl, hc⟩ := h.head
  simp only [List.cons_append] at hreads ⊢
  rw [readValue_plain (by decide) (by decide) (by decide), readWord?_minus hc]
  simp only [readNumber, hreads]
  rfl

end Numeral

theorem withinDigits_whole {n : Int} :
    (Json.number (.whole n)).withinDigits = true ↔
      (Nat.toDigits 10 n.natAbs).length ≤ digitLimit := by
  rw [withinDigits, decide_eq_true_eq]

theorem length_toDigits_le_iff {n k : Nat} (hk : 0 < k) :
    (Nat.toDigits 10 n).length ≤ k ↔ n < pow10 k := Nat.length_toDigits_le_iff (by decide) hk

theorem withinDigits_iff {n : Int} :
    (Json.number (.whole n)).withinDigits = true ↔ n.natAbs < pow10 digitLimit :=
  withinDigits_whole.trans (length_toDigits_le_iff (by decide))

theorem sign_append (negative : Bool) (text : List Char) :
    (if negative then ['-'] else []) ++ text = if negative then '-' :: text else text := by
  cases negative <;> rfl

theorem writeNumber_finite (negative : Bool) (rank : Nat) (bounded : rank < 2047 * pow2 52) :
    writeNumber (.real (.finite negative rank bounded)) =
      if negative then '-' :: (Binary64.shortest rank).text else (Binary64.shortest rank).text :=
  sign_append negative (Binary64.shortest rank).text

/-- A written number is read back, whatever follows that cannot belong to it. -/
theorem readValue_writeNumber {n : Number} {rest : List Char}
    (h : (Json.number n).withinDigits = true) (hrest : Ends rest) (fuel : Nat) :
    readValue (fuel + 1) (writeNumber n ++ rest) = .ok (.number n, rest) := by
  cases n with
  | whole n =>
    have hnumeral := numeral_whole (withinDigits_whole.mp h)
    rw [writeNumber]
    split
    · rename_i hnegative
      rw [hnumeral.readValue_minus hrest, if_pos rfl, show -(n.natAbs : Int) = n by omega]
    · rename_i hnonnegative
      rw [hnumeral.readValue hrest, if_neg (by decide), show (n.natAbs : Int) = n by omega]
  | real x =>
    cases x with
    | nan => exact readValue_word (by decide) (by decide) (by decide) rfl fuel
    | infinite negative =>
      cases negative with
      | false => exact readValue_word (by decide) (by decide) (by decide) rfl fuel
      | true => exact readValue_word (by decide) (by decide) (by decide) rfl fuel
    | finite negative rank bounded =>
      have hnumeral := numeral_decimal (Binary64.shortest rank)
      rw [writeNumber_finite]
      cases negative with
      | false => rw [if_neg (by decide), hnumeral.readValue hrest, Binary64.ofDecimal_shortest]
      | true => rw [if_pos rfl, hnumeral.readValue_minus hrest, Binary64.ofDecimal_shortest]

end AdminConsole.Json
