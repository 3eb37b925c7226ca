import AdminConsole.Tree.Display

/-!
Escape sequences in a text. Taking them out is one scan from left to right that leaves out each
sequence it comes to and keeps every other character. Two texts can be scanned one after the other if
no sequence that is begun in the first can go on in the second.
-/

namespace AdminConsole.Style

variable {w u v seq after out out' params : List Char}

/-! ### Sequences -/

/-- An escape character, a bracket, digits and semicolons, and the letter m. -/
def IsEscape (seq : List Char) : Prop :=
  ∃ params, (∀ c ∈ params, isParameter c = true) ∧ seq = '\x1b' :: '[' :: (params ++ ['m'])

/-- Characters that can stand in an escape sequence behind its first. -/
def isInside (c : Char) : Bool := c = '[' || isParameter c || c = 'm'

theorem IsEscape.inside (h : IsEscape seq) : ∀ c ∈ seq.tail, isInside c = true := by
  obtain ⟨params, hparams, rfl⟩ := h
  intro c hc
  simp only [List.tail_cons, List.mem_cons, List.mem_append, List.not_mem_nil, or_false] at hc
  rcases hc with rfl | hc | rfl
  · rfl
  · simp [isInside, hparams c hc]
  · rfl

theorem IsEscape.head (h : IsEscape seq) : seq.head? = some '\x1b' := by
  obtain ⟨params, _, rfl⟩ := h
  rfl

theorem afterEscape?_params (h : ∀ c ∈ params, isParameter c = true) :
    afterEscape? ('\x1b' :: '[' :: (params ++ 'm' :: after)) = some after := by
  have hend : (params ++ 'm' :: after).dropWhile isParameter = 'm' :: after := by
    rw [List.dropWhile_append_of_pos h]
    exact List.dropWhile_cons_of_neg (by decide)
  simp only [afterEscape?, hend]

theorem afterEscape?_eq_some_iff :
    afterEscape? w = some after ↔ ∃ seq, IsEscape seq ∧ w = seq ++ after := by
  constructor
  · intro h
    unfold afterEscape? at h
    split at h
    · rename_i rest
      split at h
      · rename_i hrest
        cases h
        refine ⟨_, ⟨rest.takeWhile isParameter, ?_, rfl⟩, ?_⟩
        · exact fun c hc => List.all_eq_true.mp List.all_takeWhile c hc
        · rw [List.cons_append, List.cons_append, List.append_assoc, List.singleton_append, ← hrest,
            List.takeWhile_append_dropWhile]
      · cases h
    · cases h
  · rintro ⟨seq, ⟨params, hparams, rfl⟩, rfl⟩
    rw [List.cons_append, List.cons_append, List.append_assoc, List.singleton_append]
    exact afterEscape?_params hparams

/-- A text has nothing behind a sequence exactly if it begins with none. -/
theorem afterEscape?_eq_none_iff :
    afterEscape? w = none ↔ ∀ seq, IsEscape seq → ¬seq <+: w := by
  rw [Option.eq_none_iff_forall_ne_some]
  constructor
  · rintro h seq hseq ⟨after, hsplit⟩
    exact h after (afterEscape?_eq_some_iff.mpr ⟨seq, hseq, hsplit.symm⟩)
  · intro h after hafter
    obtain ⟨seq, hseq, hsplit⟩ := afterEscape?_eq_some_iff.mp hafter
    exact h seq hseq ⟨after, hsplit.symm⟩

theorem afterEscape?_append (h : afterEscape? w = some after) (v : List Char) :
    afterEscape? (w ++ v) = some (after ++ v) := by
  obtain ⟨seq, hseq, rfl⟩ := afterEscape?_eq_some_iff.mp h
  exact afterEscape?_eq_some_iff.mpr ⟨seq, hseq, List.append_assoc seq after v⟩

theorem afterEscape?_eq_none {c : Char} (h : c ≠ '\x1b') (rest : List Char) :
    afterEscape? (c :: rest) = none := by
  rw [afterEscape?_eq_none_iff]
  rintro seq ⟨params, _, rfl⟩ ⟨after, hsplit⟩
  exact h (List.cons.inj hsplit).1.symm

/-! ### Texts side by side -/

/-- A text with which no sequence can go on that was begun before it. -/
def Blunt (v : List Char) : Prop := ∀ c ∈ v.head?, isInside c = false

theorem IsEscape.blunt (h : IsEscape seq) : Blunt seq := by
  intro c hc
  rw [h.head] at hc
  cases hc
  rfl

theorem blunt_cons {c : Char} (h : isInside c = false) (rest : List Char) : Blunt (c :: rest) := by
  intro d hd
  cases hd
  exact h

/-- Where a text does not begin with a sequence, it does not do so with a blunt text behind it. -/
theorem afterEscape?_append_blunt (h : afterEscape? w = none) (hw : w ≠ []) (hv : Blunt v) :
    afterEscape? (w ++ v) = none := by
  rw [afterEscape?_eq_none_iff] at h ⊢
  rintro seq hseq ⟨after, hsplit⟩
  rcases List.append_eq_append_iff.mp hsplit with ⟨rest, hrest, _⟩ | ⟨more, hmore, hrest⟩
  · exact h seq hseq ⟨rest, hrest.symm⟩
  · -- The sequence goes on behind the first text, and so with the head of the second.
    cases more with
    | nil => exact h seq hseq ⟨[], by rw [hmore, List.append_nil, List.append_nil]⟩
    | cons c more =>
      have hinside := hseq.inside c (by
        rw [hmore, List.tail_append_of_ne_nil hw]
        exact List.mem_append_right _ List.mem_cons_self)
      have hblunt := hv c (by rw [hrest]; rfl)
      rw [hinside] at hblunt
      cases hblunt

/-! ### Taking sequences out -/

/-- What a scan from left to right leaves of a text. -/
inductive Stripped : List Char → List Char → Prop where
  | nil : Stripped [] []
  | escape {w after out : List Char} (h : afterEscape? w = some after)
    (hrest : Stripped after out) : Stripped w out
  | char {c : Char} {rest out : List Char} (h : afterEscape? (c :: rest) = none)
    (hrest : Stripped rest out) : Stripped (c :: rest) (c :: out)

theorem length_after_lt (h : afterEscape? w = some after) : after.length < w.length := by
  obtain ⟨seq, ⟨params, _, rfl⟩, rfl⟩ := afterEscape?_eq_some_iff.mp h
  simp only [List.length_append, List.length_cons]
  omega

theorem stripped_stripFrom {fuel : Nat} (h : w.length ≤ fuel) : Stripped w (stripFrom fuel w) := by
  induction fuel generalizing w with
  | zero =>
    obtain rfl := List.eq_nil_of_length_eq_zero (Nat.le_zero.mp h)
    exact .nil
  | succ fuel ih =>
    cases w with
    | nil => exact .nil
    | cons c rest =>
      rw [stripFrom]
      cases hafter : afterEscape? (c :: rest) with
      | none => exact .char hafter (ih (Nat.le_of_succ_le_succ h))
      | some after =>
        have hlength := length_after_lt hafter
        exact .escape hafter (ih (by omega))

theorem Stripped.unique (h : Stripped w out) (h' : Stripped w out') : out = out' := by
  induction h generalizing out' with
  | nil =>
    cases h' with
    | nil => rfl
    | escape hafter => cases hafter
  | escape hafter _ ih =>
    cases h' with
    | nil => cases hafter
    | escape hafter' hrest' =>
      rw [hafter] at hafter'
      cases hafter'
      exact ih hrest'
    | char hnone =>
      rw [hafter] at hnone
      cases hnone
  | char hnone _ ih =>
    cases h' with
    | escape hafter =>
      rw [hafter] at hnone
      cases hnone
    | char _ hrest' => rw [ih hrest']

theorem Stripped.append (hu : Stripped u out) (hv : Stripped v out') (hblunt : Blunt v) :
    Stripped (u ++ v) (out ++ out') := by
  induction hu with
  | nil => exact hv
  | escape hafter _ ih => exact .escape (afterEscape?_append hafter v) ih
  | char hnone _ ih =>
    exact .char (afterEscape?_append_blunt hnone (List.cons_ne_nil _ _) hblunt) ih

/-- Where no escape character stands, everything is kept. -/
theorem Stripped.keep (hu : '\x1b' ∉ u) (hv : Stripped v out) : Stripped (u ++ v) (u ++ out) := by
  induction u with
  | nil => exact hv
  | cons c u ih =>
    rw [List.mem_cons, not_or] at hu
    exact .char (afterEscape?_eq_none (Ne.symm hu.1) _) (ih hu.2)

theorem stripped_strip (s : String) : Stripped s.toList (strip s).toList := by
  rw [strip, String.toList_ofList]
  exact stripped_stripFrom (Nat.le_refl _)

theorem stripped_iff {s t : String} : Stripped s.toList t.toList ↔ strip s = t := by
  constructor
  · exact fun h => String.toList_inj.mp ((stripped_strip s).unique h)
  · rintro rfl
    exact stripped_strip s

theorem strip_append {s : String} (h : Blunt s.toList) (r : String) :
    strip (r ++ s) = strip r ++ strip s := by
  apply stripped_iff.mp
  rw [String.toList_append, String.toList_append]
  exact (stripped_strip r).append (stripped_strip s) h

theorem strip_keep {r : String} (h : '\x1b' ∉ r.toList) (s : String) :
    strip (r ++ s) = r ++ strip s := by
  apply stripped_iff.mp
  rw [String.toList_append, String.toList_append]
  exact .keep h (stripped_strip s)

/-- A text that keeps what stands before it apart from what stands behind it. -/
structure Separates (r : String) : Prop where
  blunt : ∃ c rest, r.toList = c :: rest ∧ isInside c = false
  unescaped : '\x1b' ∉ r.toList

theorem Separates.strip {between : String} (h : Separates between) (r s : String) :
    Style.strip (r ++ (between ++ s)) = Style.strip r ++ (between ++ Style.strip s) := by
  obtain ⟨c, rest, hbetween, hinside⟩ := h.blunt
  rw [strip_append, strip_keep h.unescaped]
  rw [String.toList_append, hbetween]
  exact blunt_cons hinside _

/-- A sequence, or nothing in its place. -/
def IsMark (mark : String) : Prop := mark = "" ∨ IsEscape mark.toList

theorem IsMark.strip_append {mark : String} (h : IsMark mark) (s : String) :
    strip (mark ++ s) = strip s := by
  rcases h with rfl | hescape
  · rw [String.empty_append]
  · apply stripped_iff.mp
    rw [String.toList_append]
    exact .escape (afterEscape?_eq_some_iff.mpr ⟨_, hescape, rfl⟩) (stripped_strip s)

theorem IsMark.append_strip {mark : String} (h : IsMark mark) (s : String) :
    strip (s ++ mark) = strip s := by
  have hempty : strip "" = "" := rfl
  rcases h with rfl | hescape
  · rw [String.append_empty]
  · have hgone : strip mark = "" := by
      have hstrip := IsMark.strip_append (.inr hescape) ""
      rwa [String.append_empty, hempty] at hstrip
    rw [Style.strip_append hescape.blunt, hgone, String.append_empty]

end AdminConsole.Style
