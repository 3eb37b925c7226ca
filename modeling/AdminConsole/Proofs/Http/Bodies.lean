import AdminConsole.Proofs.Json.Readable
import AdminConsole.Proofs.Text.Codes

/-!
Bodies that are text. The bytes of a body may be read as halves of surrogate pairs that stand alone;
those are no characters, and two of them side by side come back from an entry as one character. Where
a body is UTF-8 there are none, and its value is the one of its text.
-/

namespace AdminConsole

namespace Text

theorem Utf8.numbers_map_char (position : Nat) (cs : List Char) :
    numbers position (cs.map .char) = .ok (cs.map Char.toNat) := by
  induction cs generalizing position with
  | nil => rfl
  | cons c cs ih =>
    rw [List.map_cons, numbers, ih]
    rfl

namespace Encoding

/-- Text that begins with two characters of ASCII begins with no mark, and is UTF-8 by that. -/
theorem detect_ascii {a b : UInt8} (ha : a ≠ 0) (hascii : a.toNat < 0x80) (hb : b ≠ 0)
    (rest : List UInt8) : detect (a :: b :: rest) = (.utf8, []) := by
  have hhigh : ∀ mark : UInt8, 0x80 ≤ mark.toNat → mark ≠ a := by
    rintro mark hmark rfl
    omega
  have hnone : marks.find? (fun entry => entry.1.isPrefixOf (a :: b :: rest)) = none := by
    simp [marks, ha.symm, hhigh 0xFF (by decide), hhigh 0xFE (by decide), hhigh 0xEF (by decide)]
  rw [detect, hnone]
  match rest with
  | [] => simp [unmarked, ha, hb]
  | [_] => rfl
  | _ :: _ :: _ => simp [unmarked, ha, hb]

theorem decode_encode {cs : List Char} (h : detect (Utf8.encode cs) = (.utf8, [])) :
    decode (Utf8.encode cs) = .ok (cs.map Char.toNat) := by
  simp only [decode, h, List.length_nil, List.drop_zero, Utf8.items_encode, Utf8.numbers_map_char]
  rfl

end Encoding

end Text

namespace Body

/-- A body is Unicode text: no half of a surrogate pair stands alone among its bytes. -/
def HoldsText : Body → Prop
  | .json _ => True
  | .bytes data => ∀ numbers, Text.Encoding.decode data = .ok numbers →
    ∀ n ∈ numbers, Text.isHalf n = false

/-- A body that is UTF-8, told by its first bytes, holds text. -/
theorem holdsText_encode {cs : List Char}
    (h : Text.Encoding.detect (Text.Utf8.encode cs) = (.utf8, [])) :
    (Body.bytes (Text.Utf8.encode cs)).HoldsText := by
  intro numbers hnumbers n hn
  rw [Text.Encoding.decode_encode h] at hnumbers
  cases hnumbers
  obtain ⟨c, -, rfl⟩ := List.mem_map.mp hn
  exact Text.isHalf_toNat c

/-- A value that was written is read from the UTF-8 bytes of its text. -/
theorem read_encode {v : Json} (hv : v.Readable)
    (h : Text.Encoding.detect (Text.Utf8.encode (v.write .compact)) = (.utf8, [])) :
    (Body.bytes (Text.Utf8.encode (v.write .compact))).read = .ok v := by
  have hchars : ((v.write .compact).map Char.toNat).map Text.unitChar = v.write .compact := by
    rw [List.map_map]
    exact (List.map_congr_left fun c _ => Text.unitChar_toNat c).trans (List.map_id _)
  have hmark : (v.write .compact).head? ≠ some '\uFEFF' := by
    obtain ⟨c, more, heq, hstarts⟩ := Json.starts_writeAt .compact 0 v
    rw [Json.write, heq, List.head?_cons, Ne, Option.some.injEq]
    exact hstarts.2.2
  simp only [Body.read, Text.Encoding.decode_encode h, hchars, if_neg hmark,
    Json.read_write hv.digits hv.names]

/-- A body that may be answered: what is read as an authentication holds text. -/
structure Legible (body : Body) : Prop where
  readable : body.Readable
  text : ∀ value a, body.read = .ok value → Authentication.ofJson value = .ok a → body.HoldsText

end Body

end AdminConsole
