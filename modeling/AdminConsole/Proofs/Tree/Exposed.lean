import AdminConsole.Proofs.Tree.Ancestry

/-!
Visible rows by what is above them. The rows of a tree are looked through once, from the first to the
last, and a row is shown if its parent was shown and is unfolded. What is shown in the end are the rows
with nothing folded above them.
-/

namespace AdminConsole.Node

/-- Nothing above a row is folded. -/
def Exposed (rows : List Node) (row : Node) : Prop :=
  ∀ above, Below rows row above → above.expanded = true

variable {rows : List Node} {row root : Node}

theorem exposed_iff : Exposed rows row ↔
    ∀ parent, HasParent rows row parent → parent.expanded = true ∧ Exposed rows parent :=
  forall_above_iff

theorem exposed_reflag {flags : Node → Bool} {b : Bool} :
    Exposed (reflag flags rows) (row.flagged b) ↔
      ∀ above, Below rows row above → flags above = true := by
  constructor
  · intro h above habove
    exact h (above.flagged (flags above)) (below_reflag.mpr ⟨above, habove, rfl⟩)
  · intro h above habove
    obtain ⟨other, hother, rfl⟩ := below_reflag.mp habove
    exact h other hother

/-- The keys shown so far are those of the exposed rows among the first ones. -/
def ShownAmong (rows before : List Node) (shown : List String) : Prop :=
  ∀ p, p ∈ shown ↔ ∃ row ∈ before, row.key = p ∧ Exposed rows row

section Shown

variable {before after : List Node} {shown : List String}

theorem ShownAmong.exposed (h : ShownAmong rows before shown) (hrow : Exposed rows row) :
    ShownAmong rows (before ++ [row]) (row.key :: shown) := by
  intro p
  rw [List.mem_cons, h p]
  simp only [List.mem_append, List.mem_singleton, or_and_right, exists_or, exists_eq_left, hrow,
    and_true]
  rw [or_comm, eq_comm]

theorem ShownAmong.hidden (h : ShownAmong rows before shown) (hrow : ¬ Exposed rows row) :
    ShownAmong rows (before ++ [row]) shown := by
  intro p
  rw [h p]
  simp only [List.mem_append, List.mem_singleton, or_and_right, exists_or, exists_eq_left, hrow,
    and_false, or_false]

variable (h : IsListing rows)
include h

/-- A parent stands before the rows that hang from it. -/
theorem IsListing.parent_before {parent : Node} (hsplit : rows = before ++ row :: after)
    (hparent : HasParent rows row parent) : parent ∈ before := by
  obtain ⟨other, hother, hkey⟩ :=
    List.mem_map.mp (h.nested before row after hsplit parent.key hparent.2)
  have hmem : other ∈ rows := by simp [hsplit, hother]
  rwa [← h.eq_of_key hmem hparent.1 hkey]

theorem IsListing.isShown_iff (hrow : row ∈ rows) : isShown rows shown row = true ↔
    ∀ parent, HasParent rows row parent → parent.expanded = true ∧ parent.key ∈ shown := by
  rw [Node.isShown_iff]
  constructor
  · intro hshown parent hparent
    obtain ⟨hmem, found, hfound, hopen⟩ := hshown parent.key hparent.2
    rw [rowOf?_of_nodup h.nodup hparent.1, Option.some.injEq] at hfound
    exact ⟨hfound ▸ hopen, hmem⟩
  · intro hshown p hp
    obtain ⟨parent, hparent, rfl⟩ := h.exists_parent hrow hp
    obtain ⟨hopen, hmem⟩ := hshown parent hparent
    exact ⟨hmem, parent, rowOf?_of_nodup h.nodup hparent.1, hopen⟩

/-- The key of a parent was shown if the parent is exposed: no other row has the key. -/
theorem IsListing.isShown_iff_exposed (hsplit : rows = before ++ row :: after)
    (hshown : ShownAmong rows before shown) :
    isShown rows shown row = true ↔ Exposed rows row := by
  rw [h.isShown_iff (by simp [hsplit]), exposed_iff]
  refine forall_congr' fun parent => imp_congr_right fun hparent => and_congr_right fun _ => ?_
  rw [hshown parent.key]
  constructor
  · rintro ⟨other, hother, hkey, hexposed⟩
    have hmem : other ∈ rows := by simp [hsplit, hother]
    rwa [← h.eq_of_key hmem hparent.1 hkey]
  · exact fun hexposed => ⟨parent, h.parent_before hsplit hparent, rfl, hexposed⟩

end Shown

section Filter

open Classical

theorem IsListing.visibleFrom_eq (h : IsListing rows) {before pending : List Node}
    {shown : List String} (hsplit : rows = before ++ pending)
    (hshown : ShownAmong rows before shown) :
    visibleFrom rows shown pending = pending.filter (Exposed rows) := by
  induction pending generalizing before shown with
  | nil => rfl
  | cons row rest ih =>
    have hsame := h.isShown_iff_exposed hsplit hshown
    have hnext : rows = (before ++ [row]) ++ rest := by simp [hsplit]
    by_cases hexposed : Exposed rows row
    · rw [visibleFrom, if_pos (hsame.mpr hexposed), ih hnext (hshown.exposed hexposed),
        List.filter_cons_of_pos (by simpa using hexposed)]
    · rw [visibleFrom, if_neg (mt hsame.mp hexposed), ih hnext (hshown.hidden hexposed),
        List.filter_cons_of_neg (by simpa using hexposed)]

theorem IsListing.visible_eq (h : IsListing rows) : visible rows = rows.filter (Exposed rows) := by
  have hsplit : rows = [] ++ rows := rfl
  exact h.visibleFrom_eq hsplit (by simp [ShownAmong])

theorem IsListing.mem_visible (h : IsListing rows) :
    row ∈ visible rows ↔ row ∈ rows ∧ Exposed rows row := by
  rw [h.visible_eq, List.mem_filter, decide_eq_true_eq]

theorem IsListing.visible_reflag (h : IsListing rows) (flags : Node → Bool) :
    visible (reflag flags rows) =
      reflag flags (rows.filter fun row => ∀ above, Below rows row above → flags above = true) := by
  have hlisting := (refolded_reflag flags rows).isListing h
  rw [hlisting.visible_eq, filter_reflag]
  congr 1
  exact List.filter_congr fun row _ => decide_eq_decide.mpr exposed_reflag

theorem IsListing.visible_expandAll (h : IsListing rows) :
    visible (expandAll rows) = expandAll rows := by
  rw [expandAll_eq_reflag, h.visible_reflag]
  congr 1
  refine List.filter_eq_self.mpr fun row hrow => decide_eq_true fun above habove => ?_
  obtain ⟨child, hchild, hparent⟩ := habove.exists_child hrow
  rw [h.hasChildren hchild hparent, Bool.true_or]

/-- The visible rows of a tree are those with nothing folded above them. These are all rows once
everything is unfolded that has children. -/
theorem visible_exposed (h : Refolded (flatten root) rows) :
    visible rows = rows.filter (Exposed rows) ∧ visible (expandAll rows) = expandAll rows :=
  ⟨h.listing.visible_eq, h.listing.visible_expandAll⟩

/-- Folding A hides B, though B itself is unfolded. -/
theorem visible_exposed_crossed : ∃ rows, Refolded (flatten crossed) rows ∧
    (visible rows).map key = ["R", "S", "T", "A"] ∧
    visible rows = rows.filter (Exposed rows) ∧ visible (expandAll rows) = expandAll rows := by
  have h := refolded_reflag (fun row => row.key ≠ "A") (flatten crossed)
  exact ⟨_, h, by cbv, visible_exposed h⟩

end Filter

end AdminConsole.Node
