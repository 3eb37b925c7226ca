import AdminConsole.Proofs.Tree.Escapes

/-!
What taking escape sequences out leaves behind. One scan takes out the sequences that a text has;
where one of them stood inside another, the parts of the other come together in what is left. So a
sequence is left exactly where the text has one that whole sequences interrupt, and only there would
a second scan take out more.
-/

namespace AdminConsole.Style

variable {w u v out : List Char}

/-! ### Sequences in a text -/

def HasEscape (w : List Char) : Prop := ∃ seq, IsEscape seq ∧ seq <:+: w

theorem HasEscape.mono (h : HasEscape u) (hwithin : u <:+: w) : HasEscape w := by
  obtain ⟨seq, hseq, hin⟩ := h
  exact ⟨seq, hseq, hin.trans hwithin⟩

theorem not_hasEscape_nil : ¬HasEscape [] := by
  rintro ⟨seq, ⟨params, -, rfl⟩, hwithin⟩
  cases List.infix_nil.mp hwithin

/-- No sequence begins with the first character, and none stands behind it. -/
theorem not_hasEscape_cons_iff {c : Char} :
    ¬HasEscape (c :: w) ↔ afterEscape? (c :: w) = none ∧ ¬HasEscape w := by
  rw [afterEscape?_eq_none_iff]
  constructor
  · intro h
    exact ⟨fun seq hseq hbegins => h ⟨seq, hseq, hbegins.isInfix⟩,
      fun hrest => h (hrest.mono (List.suffix_cons c w).isInfix)⟩
  · rintro ⟨hnone, hrest⟩ ⟨seq, hseq, hwithin⟩
    rcases List.infix_cons_iff.mp hwithin with hbegins | hwithin
    · exact hnone seq hseq hbegins
    · exact hrest ⟨seq, hseq, hwithin⟩

theorem IsEscape.unescaped_tail {tail : List Char} (h : IsEscape ('\x1b' :: tail)) : '\x1b' ∉ tail :=
  fun hmem => Bool.false_ne_true (h.inside '\x1b' hmem)

/-! ### Texts that a scan leaves as they are -/

theorem exists_stripped (w : List Char) : ∃ out, Stripped w out :=
  ⟨_, stripped_stripFrom (Nat.le_refl _)⟩

theorem Stripped.length_le (h : Stripped w out) : out.length ≤ w.length := by
  induction h with
  | nil => exact Nat.le_refl _
  | escape hafter _ ih => exact Nat.le_trans ih (Nat.le_of_lt (length_after_lt hafter))
  | char _ _ ih => exact Nat.succ_le_succ ih

theorem stripped_self_iff : Stripped w w ↔ ¬HasEscape w := by
  induction w with
  | nil => exact ⟨fun _ => not_hasEscape_nil, fun _ => .nil⟩
  | cons c rest ih =>
    rw [not_hasEscape_cons_iff, ← ih]
    constructor
    · intro h
      cases h with
      | escape hafter hrest =>
        -- What is left behind a sequence is shorter than the text.
        exact absurd hrest.length_le (Nat.not_le.mpr (length_after_lt hafter))
      | char hnone hrest => exact ⟨hnone, hrest⟩
    · exact fun ⟨hnone, hrest⟩ => .char hnone hrest

/-! ### Interrupted sequences -/

/-- A text with whole sequences put in before some of its characters. -/
inductive Filled : List Char → List Char → Prop where
  | nil : Filled [] []
  | char (c : Char) {text filled : List Char} (h : Filled text filled) :
    Filled (c :: text) (c :: filled)
  | escape {seq text filled : List Char} {c : Char} (hseq : IsEscape seq)
    (h : Filled (c :: text) filled) : Filled (c :: text) (seq ++ filled)

/-- A sequence with one or more whole sequences between its characters. -/
def IsInterrupted (w : List Char) : Prop :=
  ∃ tail more, IsEscape ('\x1b' :: tail) ∧ Filled tail more ∧ more ≠ tail ∧ w = '\x1b' :: more

def HasInterruption (w : List Char) : Prop := ∃ part, IsInterrupted part ∧ part <:+: w

theorem HasInterruption.mono (h : HasInterruption u) (hwithin : u <:+: w) :
    HasInterruption w := by
  obtain ⟨part, hpart, hin⟩ := h
  exact ⟨part, hpart, hin.trans hwithin⟩

/-- The text is as it was up to the first sequence that was put in. -/
theorem Filled.eq_or_broken (h : Filled u w) :
    w = u ∨ ∃ before behind seq more, u = before ++ behind ∧ behind ≠ [] ∧ IsEscape seq ∧
      w = before ++ (seq ++ more) := by
  induction h with
  | nil => exact .inl rfl
  | char c _ ih =>
    rcases ih with rfl | ⟨before, behind, seq, more, rfl, hbehind, hseq, rfl⟩
    · exact .inl rfl
    · exact .inr ⟨c :: before, behind, seq, more, rfl, hbehind, hseq, rfl⟩
  | escape hseq _ _ => exact .inr ⟨[], _, _, _, rfl, List.cons_ne_nil _ _, hseq, rfl⟩

/-- The letter m ends a sequence, so no sequence is whole before its last character. -/
theorem afterEscape?_proper {behind : List Char} (h : IsEscape ('\x1b' :: (u ++ behind)))
    (hbehind : behind ≠ []) : afterEscape? ('\x1b' :: u) = none := by
  rw [afterEscape?_eq_none_iff]
  rintro seq ⟨params', _, rfl⟩ ⟨after, hsplit⟩
  obtain ⟨params, hparams, heq⟩ := h
  obtain ⟨last, c, rfl⟩ := (List.eq_nil_or_concat behind).resolve_left hbehind
  have hends : (u ++ last) ++ [c] = ('[' :: params) ++ ['m'] := by simpa using heq
  have hbefore := (List.append_inj' hends rfl).1
  have hmem : 'm' ∈ '[' :: params := by
    rw [← hbefore, ← (List.cons.inj hsplit).2]
    simp
  rcases List.mem_cons.mp hmem with hbracket | hparam
  · exact absurd hbracket (by decide)
  · exact absurd (hparams 'm' hparam) (by decide)

/-- A scan keeps the first character of an interrupted sequence. -/
theorem IsInterrupted.afterEscape?_eq_none (h : IsInterrupted w) (v : List Char) :
    afterEscape? (w ++ v) = none := by
  obtain ⟨tail, more, hescape, hfilled, hne, rfl⟩ := h
  obtain ⟨before, behind, seq, rest, rfl, hbehind, hseq, rfl⟩ := hfilled.eq_or_broken.resolve_left hne
  have hblunt : Blunt (seq ++ (rest ++ v)) := by
    obtain ⟨params, _, rfl⟩ := hseq
    exact blunt_cons rfl _
  have hbegun := afterEscape?_append_blunt (afterEscape?_proper hescape hbehind)
    (List.cons_ne_nil _ _) hblunt
  simpa only [List.cons_append, List.append_assoc] using hbegun

/-! ### What is left -/

/-- A scan leaves out what was put into a text. -/
theorem Filled.stripped (h : Filled u w) (hu : '\x1b' ∉ u) (hv : Stripped v out) :
    Stripped (w ++ v) (u ++ out) := by
  induction h with
  | nil => exact hv
  | char c _ ih =>
    rw [List.mem_cons, not_or] at hu
    exact .char (afterEscape?_eq_none (Ne.symm hu.1) _) (ih hu.2)
  | escape hseq _ ih =>
    exact .escape (afterEscape?_eq_some_iff.mpr ⟨_, hseq, List.append_assoc _ _ _⟩) (ih hu)

/-- Each text that a scan leaves at the beginning was there, with the sequences that it has left out. -/
theorem Stripped.filled (h : Stripped w out) (hsplit : out = u ++ v) :
    ∃ part rest, Filled u part ∧ w = part ++ rest := by
  cases u with
  | nil => exact ⟨[], w, .nil, rfl⟩
  | cons c u =>
    induction h generalizing c u with
    | nil => cases hsplit
    | escape hafter _ ih =>
      obtain ⟨seq, hseq, rfl⟩ := afterEscape?_eq_some_iff.mp hafter
      obtain ⟨part, rest, hfilled, rfl⟩ := ih c u hsplit
      exact ⟨seq ++ part, rest, .escape hseq hfilled, (List.append_assoc _ _ _).symm⟩
    | char _ _ ih =>
      obtain ⟨rfl, rfl⟩ := List.cons.inj hsplit
      cases u with
      | nil => exact ⟨[_], _, .char _ .nil, rfl⟩
      | cons d u =>
        obtain ⟨part, rest, hfilled, rfl⟩ := ih d u rfl
        exact ⟨_ :: part, rest, .char _ hfilled, rfl⟩

theorem Stripped.interruption (h : Stripped w out) (hout : HasEscape out) : HasInterruption w := by
  induction h with
  | nil => exact absurd hout not_hasEscape_nil
  | escape hafter _ ih =>
    obtain ⟨seq, _, rfl⟩ := afterEscape?_eq_some_iff.mp hafter
    exact (ih hout).mono (List.suffix_append seq _).isInfix
  | char hnone hrest ih =>
    obtain ⟨seq, hseq, hwithin⟩ := hout
    rcases List.infix_cons_iff.mp hwithin with ⟨after, hsplit⟩ | hwithin
    · -- The sequence that is left begins here, and the text has no sequence here.
      obtain ⟨params, _, rfl⟩ := id hseq
      obtain ⟨rfl, htail⟩ := List.cons.inj hsplit
      obtain ⟨part, rest, hfilled, rfl⟩ := hrest.filled htail.symm
      refine ⟨'\x1b' :: part, ⟨_, part, hseq, hfilled, ?_, rfl⟩, (List.prefix_append _ rest).isInfix⟩
      rintro rfl
      exact afterEscape?_eq_none_iff.mp hnone _ hseq (List.prefix_append _ rest)
    · exact (ih ⟨seq, hseq, hwithin⟩).mono (List.suffix_cons _ _).isInfix

theorem Stripped.hasEscape_iff (h : Stripped w out) : HasEscape out ↔ HasInterruption w := by
  refine ⟨h.interruption, ?_⟩
  rintro ⟨part, hpart, u, v, rfl⟩
  obtain ⟨first, hfirst⟩ := exists_stripped u
  obtain ⟨last, hlast⟩ := exists_stripped v
  have hkept := hpart.afterEscape?_eq_none v
  obtain ⟨tail, more, hescape, hfilled, _, rfl⟩ := hpart
  have hmore := hfilled.stripped hescape.unescaped_tail hlast
  have hwhole := hfirst.append (.char hkept hmore) (blunt_cons rfl _)
  rw [List.append_assoc] at h
  obtain rfl := h.unique hwhole
  exact ⟨'\x1b' :: tail, hescape, first, last, List.append_assoc _ _ _⟩

/-- A text is left without a sequence, and a second scan finds nothing to take out, exactly if no
sequence of it is interrupted by whole ones. -/
theorem strip_leaves_iff (s : String) :
    (HasEscape (strip s).toList ↔ HasInterruption s.toList) ∧
      (strip (strip s) = strip s ↔ ¬HasInterruption s.toList) := by
  have hleft := (stripped_strip s).hasEscape_iff
  refine ⟨hleft, ?_⟩
  rw [← stripped_iff, stripped_self_iff, hleft]

/-- Where one sequence stands inside another, the other is left. -/
theorem strip_joins_escape :
    HasEscape (strip "\x1b\x1b[0m[0m").toList ∧
      strip (strip "\x1b\x1b[0m[0m") ≠ strip "\x1b\x1b[0m[0m" := by
  have hleft : strip "\x1b\x1b[0m[0m" = "\x1b[0m" := by decide
  rw [hleft]
  exact ⟨⟨_, ⟨['0'], List.all_eq_true.mp rfl, rfl⟩, List.infix_refl _⟩, by decide⟩

end AdminConsole.Style
