import AdminConsole.Proofs.Tree.Rows

/-!
Visible rows. Whether a row is shown depends on the first row with the key of its parent. Lists of
rows that are joined keep what they show exactly if no list has parents among the keys of a list
before it.
-/

namespace AdminConsole.Node

def flagged (expanded : Bool) (row : Node) : Node := { row with expanded }

@[simp] theorem flagged_key (b : Bool) (row : Node) : (row.flagged b).key = row.key := rfl

@[simp] theorem flagged_parentRef (b : Bool) (row : Node) :
    (row.flagged b).parentRef = row.parentRef := rfl

@[simp] theorem flagged_expanded (b : Bool) (row : Node) : (row.flagged b).expanded = b := rfl

@[simp] theorem flagged_flagged (b c : Bool) (row : Node) :
    (row.flagged b).flagged c = row.flagged c := rfl

@[simp] theorem opened_key (row : Node) : row.opened.key = row.key := by
  unfold opened
  split <;> rfl

@[simp] theorem opened_parentRef (row : Node) : row.opened.parentRef = row.parentRef := by
  unfold opened
  split <;> rfl

@[simp] theorem opened_expanded (row : Node) :
    row.opened.expanded = (row.hasChildren || row.expanded) := by
  unfold opened
  split <;> simp_all

@[simp] theorem flagged_opened (b : Bool) (row : Node) :
    row.opened.flagged b = row.flagged b := by
  unfold opened
  split <;> rfl

section Lookup

variable {rows a b : List Node} {p : String} {row : Node}

theorem rowOf?_key (h : rowOf? rows p = some row) : row.key = p := by
  simpa using List.find?_some h

theorem rowOf?_mem (h : rowOf? rows p = some row) : row ∈ rows := List.mem_of_find?_eq_some h

theorem rowOf?_eq_none : rowOf? rows p = none ↔ p ∉ rows.map key := by
  simp [rowOf?]

theorem exists_rowOf? (h : p ∈ rows.map key) : ∃ row, rowOf? rows p = some row := by
  apply Option.ne_none_iff_exists'.mp
  exact fun hnone => rowOf?_eq_none.mp hnone h

theorem rowOf?_expandAll : rowOf? (expandAll rows) p = (rowOf? rows p).map opened := by
  have hkey : (fun row : Node => decide (row.key = p)) ∘ opened = fun row => decide (row.key = p) := by
    funext row
    rw [Function.comp_apply, opened_key]
  rw [rowOf?, rowOf?, expandAll, List.find?_map, hkey]

theorem rowOf?_append : rowOf? (a ++ b) p = (rowOf? a p).or (rowOf? b p) := List.find?_append

theorem rowOf?_append_left (h : p ∈ a.map key) : rowOf? (a ++ b) p = rowOf? a p := by
  obtain ⟨row, hrow⟩ := exists_rowOf? h
  rw [rowOf?_append, hrow]
  rfl

theorem rowOf?_append_right (h : p ∉ a.map key) : rowOf? (a ++ b) p = rowOf? b p := by
  rw [rowOf?_append, rowOf?_eq_none.mpr h]
  rfl

end Lookup

theorem Nested.parent {rows : List Node} (h : Nested rows) :
    ∀ row ∈ rows, ∀ p, row.parentRef = some p → p ∈ rows.map key := by
  intro row hrow p hp
  obtain ⟨before, after, rfl⟩ := List.append_of_mem hrow
  have hbefore := h before row after rfl p hp
  rw [List.map_append]
  exact List.mem_append_left _ hbefore

theorem Nested.append {a b : List Node} (ha : Nested a) (hb : Nested b) : Nested (a ++ b) := by
  intro before row after hsplit p hp
  rcases append_eq_append_cons hsplit with ⟨middle, rfl, hmiddle⟩ | ⟨middle, rfl, _⟩
  · rw [List.map_append]
    exact List.mem_append_right _ (hb middle row after hmiddle p hp)
  · exact ha before row middle rfl p hp

theorem Nested.flatten {ls : List (List Node)} (h : ∀ rows ∈ ls, Nested rows) :
    Nested ls.flatten := by
  induction ls with
  | nil => exact fun before row after hsplit => by simp at hsplit
  | cons a rest ih =>
    rw [List.flatten_cons]
    exact (h a List.mem_cons_self).append (ih fun rows hrows => h rows (List.mem_cons_of_mem _ hrows))

/-- Rows that are the same up to their flags. -/
def Refolded (a b : List Node) : Prop := b.map (flagged false) = a.map (flagged false)

section Refolded

variable {rows a a' b b' : List Node}

theorem refolded_expandAll (rows : List Node) : Refolded rows (expandAll rows) := by
  simp [Refolded, expandAll]

theorem Refolded.symm (h : Refolded a b) : Refolded b a := Eq.symm h

theorem Refolded.keys (h : Refolded a b) : b.map key = a.map key := by
  have hkeys := congrArg (List.map key) h
  simpa [List.map_map, Function.comp_def] using hkeys

theorem Refolded.parentRefs (h : Refolded a b) : b.map parentRef = a.map parentRef := by
  have hrefs := congrArg (List.map parentRef) h
  simpa [List.map_map, Function.comp_def] using hrefs

theorem Refolded.nested (h : Refolded a b) (hnested : Nested a) : Nested b := by
  intro before row after hsplit p hp
  subst hsplit
  rw [Refolded, List.map_append, List.map_cons] at h
  obtain ⟨before', rest', rfl, hbefore, hrest⟩ := List.map_eq_append_iff.mp h.symm
  obtain ⟨row', after', rfl, hrow, _⟩ := List.map_eq_cons_iff.mp hrest
  have hkeys : before.map key = before'.map key := Refolded.keys hbefore.symm
  have href : (row'.flagged false).parentRef = (row.flagged false).parentRef := by rw [hrow]
  rw [hkeys]
  exact hnested before' row' after' rfl p (href.trans hp)

/-- No row of the second list has a parent keyed like a row of the first list. -/
def Apart (a b : List Node) : Prop :=
  ∀ row ∈ b, ∀ p, row.parentRef = some p → p ∉ a.map key

theorem Refolded.apart (ha : Refolded a a') (hb : Refolded b b') (h : Apart a b) : Apart a' b' := by
  intro row hrow p hp
  have hmem : some p ∈ b.map parentRef := by
    rw [← hb.parentRefs, ← hp]
    exact List.mem_map_of_mem hrow
  obtain ⟨row', hrow', hp'⟩ := List.mem_map.mp hmem
  rw [ha.keys]
  exact h row' hrow' p hp'

end Refolded

section Shown

variable {rows rows' a b pending : List Node} {shown shown' : List String}

theorem isShown_iff {row : Node} : isShown rows shown row = true ↔
    ∀ p, row.parentRef = some p → p ∈ shown ∧ ∃ parent, rowOf? rows p = some parent ∧
      parent.expanded = true := by
  unfold isShown
  cases href : row.parentRef with
  | none => simp
  | some p =>
    simp only [parentRow?, href, Option.bind_some, Option.some.injEq, forall_eq']
    cases hparent : rowOf? rows p with
    | none => simp
    | some parent => simp [rowOf?_key hparent, and_comm]

theorem visibleFrom_sublist : (visibleFrom rows shown pending).Sublist pending := by
  fun_induction visibleFrom rows shown pending with
  | case1 => exact List.Sublist.refl []
  | case2 shown row rest _ ih => exact ih.cons_cons row
  | case3 shown row rest _ ih => exact ih.cons row

/-- What is shown of joined rows: the keys shown of the first ones count for the others. -/
theorem visibleFrom_append : visibleFrom rows shown (a ++ b) = visibleFrom rows shown a ++
    visibleFrom rows (((visibleFrom rows shown a).map key).reverse ++ shown) b := by
  fun_induction visibleFrom rows shown a with
  | case1 => rfl
  | case2 shown row rest hshown ih => simp [visibleFrom, hshown, ih]
  | case3 shown row rest hhidden ih => simpa [visibleFrom, hhidden] using ih

/-- Only the rows and the shown keys of the parents count. -/
theorem visibleFrom_congr (h : ∀ row ∈ pending, ∀ p, row.parentRef = some p →
    rowOf? rows p = rowOf? rows' p ∧ (p ∈ shown ↔ p ∈ shown')) :
    visibleFrom rows shown pending = visibleFrom rows' shown' pending := by
  induction pending generalizing shown shown' with
  | nil => rfl
  | cons row rest ih =>
    have hsame : isShown rows shown row = isShown rows' shown' row := by
      rw [Bool.eq_iff_iff, isShown_iff, isShown_iff]
      refine forall_congr' fun p => imp_congr_right fun hp => ?_
      obtain ⟨hrow, hmem⟩ := h row List.mem_cons_self p hp
      rw [hrow, hmem]
    have hrest : ∀ r ∈ rest, ∀ p, r.parentRef = some p →
        rowOf? rows p = rowOf? rows' p ∧ (p ∈ shown ↔ p ∈ shown') :=
      fun r hr => h r (List.mem_cons_of_mem _ hr)
    simp only [visibleFrom, hsame]
    split
    · congr 1
      refine ih fun r hr p hp => ?_
      obtain ⟨hrow, hmem⟩ := hrest r hr p hp
      exact ⟨hrow, by rw [List.mem_cons, List.mem_cons, hmem]⟩
    · exact ih hrest

theorem visibleFrom_folded (h : ∀ row ∈ pending, ∀ p, row.parentRef = some p →
    ∀ parent, rowOf? rows p = some parent → parent.expanded = false) :
    visibleFrom rows shown pending = pending.filter fun row => row.parentRef.isNone := by
  induction pending generalizing shown with
  | nil => rfl
  | cons row rest ih =>
    have hrest : ∀ shown, visibleFrom rows shown rest =
        rest.filter fun row => row.parentRef.isNone :=
      fun shown => ih fun r hr => h r (List.mem_cons_of_mem _ hr)
    cases href : row.parentRef with
    | none =>
      have hshown : isShown rows shown row = true := isShown_iff.mpr fun p hp => by
        rw [href] at hp
        cases hp
      simp [visibleFrom, hshown, hrest, href]
    | some p =>
      have hhidden : isShown rows shown row = false := by
        rw [Bool.eq_false_iff]
        intro hshown
        obtain ⟨_, parent, hparent, hopen⟩ := isShown_iff.mp hshown p href
        rw [h row List.mem_cons_self p href parent hparent] at hopen
        cases hopen
      simp [visibleFrom, hhidden, hrest, href]

/-- If all parents are unfolded and come before their rows, all rows are shown. -/
theorem visibleFrom_unfolded (hnested : ∀ before row after, pending = before ++ row :: after →
      ∀ p, row.parentRef = some p → p ∈ shown ∨ p ∈ before.map key)
    (hopen : ∀ row ∈ pending, ∀ p, row.parentRef = some p →
      ∃ parent, rowOf? rows p = some parent ∧ parent.expanded = true) :
    visibleFrom rows shown pending = pending := by
  induction pending generalizing shown with
  | nil => rfl
  | cons row rest ih =>
    have hshown : isShown rows shown row = true := by
      refine isShown_iff.mpr fun p hp => ⟨?_, hopen row List.mem_cons_self p hp⟩
      exact (hnested [] row rest rfl p hp).resolve_right List.not_mem_nil
    rw [visibleFrom, if_pos hshown]
    congr 1
    refine ih (fun before r after hsplit p hp => ?_) fun r hr => hopen r (List.mem_cons_of_mem _ hr)
    rcases hnested (row :: before) r after (by rw [hsplit]; rfl) p hp with hmem | hmem
    · exact .inl (List.mem_cons_of_mem _ hmem)
    · rcases List.mem_cons.mp hmem with rfl | hmem
      · exact .inl List.mem_cons_self
      · exact .inr hmem

theorem unfolded_of_visibleFrom (h : visibleFrom rows shown pending = pending) :
    ∀ row ∈ pending, ∀ p, row.parentRef = some p →
      ∃ parent, rowOf? rows p = some parent ∧ parent.expanded = true := by
  induction pending generalizing shown with
  | nil => simp
  | cons first rest ih =>
    rw [visibleFrom] at h
    split at h
    · rename_i hshown
      intro row hrow p hp
      rcases List.mem_cons.mp hrow with rfl | hrow
      · exact (isShown_iff.mp hshown p hp).2
      · exact ih (List.cons.inj h).2 row hrow p hp
    · have hlength : (visibleFrom rows shown rest).length ≤ rest.length :=
        visibleFrom_sublist.length_le
      rw [h, List.length_cons] at hlength
      omega

theorem visible_eq_self_iff (hnested : Nested rows) : visible rows = rows ↔
    ∀ row ∈ rows, ∀ parent, parentRow? rows row = some parent → parent.expanded = true := by
  constructor
  · intro h row hrow parent hparent
    obtain ⟨p, hp, hrowOf⟩ := Option.bind_eq_some_iff.mp hparent
    obtain ⟨other, hother, hopen⟩ := unfolded_of_visibleFrom h row hrow p hp
    rw [hrowOf, Option.some.injEq] at hother
    rwa [hother]
  · intro h
    refine visibleFrom_unfolded (fun before row after hsplit p hp => ?_) fun row hrow p hp => ?_
    · exact .inr (hnested before row after hsplit p hp)
    · obtain ⟨parent, hparent⟩ := exists_rowOf? (hnested.parent row hrow p hp)
      exact ⟨parent, hparent, h row hrow parent (Option.bind_eq_some_iff.mpr ⟨p, hp, hparent⟩)⟩

theorem visible_folded (h : ∀ row ∈ rows, row.expanded = false) :
    visible rows = rows.filter fun row => row.parentRef.isNone :=
  visibleFrom_folded fun _ _ _ _ parent hparent => h parent (rowOf?_mem hparent)

theorem visible_unfolded (hnested : Nested rows) (h : ∀ row ∈ rows, row.expanded = true) :
    visible rows = rows := by
  refine (visible_eq_self_iff hnested).mpr fun row _ parent hparent => ?_
  obtain ⟨p, _, hrowOf⟩ := Option.bind_eq_some_iff.mp hparent
  exact h parent (rowOf?_mem hrowOf)

/-- Unfolded as far as they have children, all rows are shown if every row that counts as a parent
has children. -/
theorem visible_expandAll_iff (hnested : Nested rows) (hfolded : ∀ row ∈ rows, row.expanded = false) :
    visible (expandAll rows) = expandAll rows ↔
      ∀ row ∈ rows, ∀ parent, parentRow? rows row = some parent → parent.hasChildren = true := by
  have hlookup : ∀ row, parentRow? (expandAll rows) row.opened =
      (parentRow? rows row).map opened := by
    intro row
    cases href : row.parentRef <;> simp [parentRow?, href, rowOf?_expandAll]
  have hflag : ∀ row parent, parentRow? rows row = some parent →
      parent.opened.expanded = parent.hasChildren := by
    intro row parent hparent
    obtain ⟨p, _, hrowOf⟩ := Option.bind_eq_some_iff.mp hparent
    rw [opened_expanded, hfolded parent (rowOf?_mem hrowOf), Bool.or_false]
  rw [visible_eq_self_iff ((refolded_expandAll rows).nested hnested)]
  constructor
  · intro h row hrow parent hparent
    rw [← hflag row parent hparent]
    exact h _ (List.mem_map_of_mem hrow) _ (by rw [hlookup, hparent]; rfl)
  · intro h _ hopened _ hparent
    obtain ⟨row, hrow, rfl⟩ := List.mem_map.mp hopened
    rw [hlookup] at hparent
    obtain ⟨original, horiginal, rfl⟩ := Option.map_eq_some_iff.mp hparent
    rw [hflag row original horiginal]
    exact h row hrow original horiginal

end Shown

theorem visibleFrom_flatten {ls : List (List Node)} {before : List Node} {shown : List String}
    (hnested : ∀ rows ∈ ls, Nested rows) (hapart : ls.Pairwise Apart)
    (hbefore : ∀ rows ∈ ls, Apart before rows) (hshown : ∀ p ∈ shown, p ∈ before.map key) :
    visibleFrom (before ++ ls.flatten) shown ls.flatten = ls.flatMap visible := by
  induction ls generalizing before shown with
  | nil => rfl
  | cons a rest ih =>
    obtain ⟨hfirst, hrest⟩ := List.pairwise_cons.mp hapart
    rw [List.flatten_cons, visibleFrom_append, List.flatMap_cons]
    congr 1
    · refine visibleFrom_congr fun row hrow p hp => ?_
      have hmem := (hnested a List.mem_cons_self).parent row hrow p hp
      have hnot := hbefore a List.mem_cons_self row hrow p hp
      rw [rowOf?_append_right hnot, rowOf?_append_left hmem]
      exact ⟨rfl, iff_of_false (fun h => hnot (hshown p h)) List.not_mem_nil⟩
    · rw [← List.append_assoc]
      refine ih (fun rows hrows => hnested rows (List.mem_cons_of_mem _ hrows)) hrest ?_ ?_
      · intro rows hrows row hrow p hp hmem
        rw [List.map_append] at hmem
        rcases List.mem_append.mp hmem with hmem | hmem
        · exact hbefore rows (List.mem_cons_of_mem _ hrows) row hrow p hp hmem
        · exact hfirst rows hrows row hrow p hp hmem
      · intro p hp
        rw [List.map_append]
        rcases List.mem_append.mp hp with hp | hp
        · refine List.mem_append_right _ ?_
          exact (visibleFrom_sublist.map key).subset (List.mem_reverse.mp hp)
        · exact List.mem_append_left _ (hshown p hp)

/-- Lists that are apart show joined what they show one by one. -/
theorem visible_flatten {ls : List (List Node)} (hnested : ∀ rows ∈ ls, Nested rows)
    (hapart : ls.Pairwise Apart) : visible ls.flatten = ls.flatMap visible := by
  have hempty : ∀ rows ∈ ls, Apart [] rows := fun _ _ _ _ _ _ => List.not_mem_nil
  have hnothing : ∀ p ∈ ([] : List String), p ∈ ([] : List Node).map key := by simp
  exact visibleFrom_flatten hnested hapart hempty hnothing

/-- If folded lists before unfolded lists show joined what they show one by one, they are apart:
a row with a parent in a folded list would be hidden. -/
theorem apart_of_visible {before after : List (List Node)}
    (hbefore : ∀ rows ∈ before, Nested rows) (hafter : ∀ rows ∈ after, Nested rows)
    (hfolded : ∀ rows ∈ before, ∀ row ∈ rows, row.expanded = false)
    (hunfolded : ∀ rows ∈ after, ∀ row ∈ rows, row.expanded = true)
    (h : visible (before ++ after).flatten = (before ++ after).flatMap visible) :
    Apart before.flatten after.flatten := by
  have hfold : ∀ row ∈ before.flatten, row.expanded = false := by
    intro row hrow
    obtain ⟨rows, hrows, hrow⟩ := List.mem_flatten.mp hrow
    exact hfolded rows hrows row hrow
  have hparent : ∀ row ∈ before.flatten, ∀ p, row.parentRef = some p → ∀ parent,
      rowOf? (before.flatten ++ after.flatten) p = some parent → parent.expanded = false := by
    intro row hrow p hp parent hparent
    rw [rowOf?_append_left ((Nested.flatten hbefore).parent row hrow p hp)] at hparent
    exact hfold parent (rowOf?_mem hparent)
  have hshown : before.flatMap visible =
      before.flatten.filter fun row => row.parentRef.isNone := by
    rw [List.filter_flatten, List.flatMap_def]
    congr 1
    exact List.map_congr_left fun rows hrows => visible_folded (hfolded rows hrows)
  have hall : after.flatMap visible = after.flatten := by
    have hself : ∀ rows ∈ after, visible rows = id rows :=
      fun rows hrows => visible_unfolded (hafter rows hrows) (hunfolded rows hrows)
    rw [List.flatMap_def, List.map_congr_left hself, List.map_id]
  rw [List.flatten_append, List.flatMap_append, visible, visibleFrom_append,
    visibleFrom_folded hparent, hshown, hall] at h
  intro row hrow p hp hmem
  obtain ⟨parent, hrowOf, hopen⟩ :=
    unfolded_of_visibleFrom (List.append_cancel_left h) row hrow p hp
  rw [rowOf?_append_left hmem] at hrowOf
  rw [hfold parent (rowOf?_mem hrowOf)] at hopen
  cases hopen

end AdminConsole.Node
