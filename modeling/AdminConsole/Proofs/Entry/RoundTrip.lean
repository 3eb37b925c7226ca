import AdminConsole.Proofs.Entry.Wrapping
import AdminConsole.Proofs.Json.RoundTrip

/-!
Stored entries are read back. A payload whose numbers are short enough to be written comes back from
the wrapped form, and an object or a list comes back from the plain form as well, which its first
character shows.
-/

namespace AdminConsole

/-- Whether a value is an object or a list, which the first character of its text shows. -/
def Json.isContainer : Json → Bool
  | .list _ => true
  | .object _ => true
  | _ => false

namespace Entry

/-- The text that is stored for a payload. -/
def stored (wrapped : Bool) (payload : Json) : List Char :=
  if wrapped then wrap (payload.write .compact) else payload.write .compact

/-- A payload is encoded unless one of its numbers is too long to be written. -/
theorem encode_eq (wrapped : Bool) (payload : Json) :
    encode wrapped payload =
      if payload.withinDigits = true then .ok (String.ofList (stored wrapped payload))
      else .error .tooManyDigitsToWrite := by
  simp only [encode, Json.write?, stored]
  split <;> rfl

theorem encode_ok {wrapped : Bool} {payload : Json} {entry : String}
    (h : encode wrapped payload = .ok entry) :
    payload.withinDigits = true ∧ entry = String.ofList (stored wrapped payload) := by
  rw [encode_eq] at h
  split at h
  · exact ⟨by assumption, (Except.ok.inj h).symm⟩
  · cases h

/-! ### The text behind an entry -/

theorem write_ne_nil (payload : Json) : payload.write .compact ≠ [] := by
  obtain ⟨c, more, heq, -⟩ := Json.starts_writeAt .compact 0 payload
  rw [Json.write, heq]
  exact List.cons_ne_nil c more

/-- The text of an object or a list lies between two brackets, the first of which shows the form. -/
theorem write_container {payload : Json} (h : payload.isContainer = true) :
    ∃ opening inner closing, payload.write .compact = opening :: (inner ++ [closing]) ∧
      Text.isBlank opening = false ∧ Text.isBlank closing = false ∧
      isPlain (opening :: (inner ++ [closing])) = true := by
  cases payload with
  | list items =>
    cases items with
    | nil => exact ⟨'[', [], ']', rfl, by decide, by decide, rfl⟩
    | cons item items =>
      rw [Json.write, Json.writeAt]
      exact ⟨'[', _, ']', rfl, by decide, by decide, rfl⟩
  | object entries =>
    cases entries with
    | nil => exact ⟨'\x7b', [], '\x7d', rfl, by decide, by decide, rfl⟩
    | cons entry entries =>
      obtain ⟨name, value⟩ := entry
      rw [Json.write, Json.writeAt]
      exact ⟨'\x7b', _, '\x7d', rfl, by decide, by decide, rfl⟩
  | _ => cases h

theorem textOf_container {payload : Json} (h : payload.isContainer = true) :
    textOf (Text.strip (payload.write .compact)) = .ok (payload.write .compact) := by
  obtain ⟨opening, inner, closing, heq, hopening, hclosing, hplain⟩ := write_container h
  have hlast : (opening :: (inner ++ [closing])).getLast? = some closing := by
    rw [← List.cons_append, List.getLast?_concat]
  rw [heq, Text.strip, Text.stripBy_eq_self]
  · rw [textOf, hplain]
    rfl
  · intro c hc
    cases hc
    exact hopening
  · intro c hc
    rw [hlast] at hc
    cases hc
    exact hclosing

theorem textOf_stored {wrapped : Bool} {payload : Json}
    (h : wrapped = true ∨ payload.isContainer = true) :
    textOf (Text.strip (stored wrapped payload)) = .ok (payload.write .compact) := by
  cases wrapped with
  | true => exact textOf_wrap (write_ne_nil payload)
  | false => exact textOf_container (h.resolve_left (by decide))

theorem decode_stored {wrapped : Bool} {payload : Json}
    (hdigits : payload.withinDigits = true) (hnames : payload.distinctNames = true)
    (h : wrapped = true ∨ payload.isContainer = true) :
    decode (String.ofList (stored wrapped payload)) = .ok payload := by
  rw [decode, String.toList_ofList, textOf_stored h]
  simp only [Json.read_write hdigits hnames]

/-! ### Encoding and decoding -/

/-- Whatever is encoded comes back as it was: wrapped, every payload; plain, every object and every
list. -/
theorem decode_of_encode {payload : Json} (hnames : payload.distinctNames = true) :
    (∀ entry, encode true payload = .ok entry → decode entry = .ok payload) ∧
      (payload.isContainer = true →
        ∀ entry, encode false payload = .ok entry → decode entry = .ok payload) := by
  refine ⟨fun entry h => ?_, fun hcontainer entry h => ?_⟩
  · obtain ⟨hdigits, rfl⟩ := encode_ok h
    exact decode_stored hdigits hnames (.inl rfl)
  · obtain ⟨hdigits, rfl⟩ := encode_ok h
    exact decode_stored hdigits hnames (.inr hcontainer)

/-- A payload with every kind of value: a character beyond the first plane, a control character,
a whole number beyond 64 bits, a negative zero, a tenth and values that are not finite. -/
def assorted : Json :=
  .object [("naïve 𝄞 \"\\", .list [.null, .bool true, .number (.whole (-123456789012345678901234))]),
    ("", .object [("a", .number (.real Binary64.zero.neg)),
      ("b", .number (.real (.finite false 4591870180066957722 (by decide)))),
      ("c", .number (.real .nan)), ("d", .number (.real (.infinite true)))]),
    ("t", .text "\u0001\u007f\u2028 end")]

theorem decode_of_encode_assorted : assorted.distinctNames = true ∧
    (∃ entry, encode true assorted = .ok entry ∧ decode entry = .ok assorted) ∧
      ∃ entry, encode false assorted = .ok entry ∧ decode entry = .ok assorted := by
  have hnames : assorted.distinctNames = true := by decide
  have hdigits : assorted.withinDigits = true := by decide
  have hencode := fun wrapped => (encode_eq wrapped assorted).trans (if_pos hdigits)
  exact ⟨hnames, ⟨_, hencode true, (decode_of_encode hnames).1 _ (hencode true)⟩,
    ⟨_, hencode false, (decode_of_encode hnames).2 rfl _ (hencode false)⟩⟩

end Entry

end AdminConsole
