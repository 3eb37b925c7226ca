import AdminConsole.Proofs.Tree.Exposed
import AdminConsole.Proofs.Tree.Reach

/-!
What folding a row hides. Hidden are the rows below those that are reached from it. These are just the
rows below itself, unless a code that its subtree lists has its row elsewhere. If that row stands above
it, the row itself is hidden, and unfolding it again shows nothing.
-/

namespace AdminConsole.Node

open Classical

variable {rows : List Node} {row above x root : Node}

section Hidden

theorem IsListing.visible_fold (h : IsListing rows) (hx : x ∈ rows) :
    Refolded ((visible rows).filter fun row => ∀ above, Below rows row above → ¬ Reaches rows x above)
      (visible (toggle rows x false).1) := by
  have hkept : rows.filter (fun row => ∀ above, Below rows row above →
        (above.expanded && !decide (Reaches rows x above)) = true) =
      (visible rows).filter fun row => ∀ above, Below rows row above → ¬ Reaches rows x above := by
    have hflag : ∀ above, (above.expanded && !decide (Reaches rows x above)) = true ↔
        ¬ Reaches rows x above ∧ above.expanded = true := by
      simp [and_comm]
    rw [h.visible_eq, List.filter_filter]
    refine List.filter_congr fun row _ => ?_
    rw [← Bool.decide_and, decide_eq_decide]
    simp only [hflag, imp_and, forall_and, Exposed]
  rw [h.toggle_false hx rfl, h.visible_reflag, hkept]
  exact refolded_reflag _ _

/-- Folding a row hides the rows below those that are reached from it. These are the rows below itself
exactly if every visible row that is below a row reached from it is below itself. -/
theorem visible_toggle (h : Refolded (flatten root) rows) (hx : x ∈ rows) :
    Refolded
        ((visible rows).filter fun row => ∀ above, Below rows row above → ¬ Reaches rows x above)
        (visible (toggle rows x false).1) ∧
      (Refolded ((visible rows).filter fun row => ¬ Below rows row x)
          (visible (toggle rows x false).1) ↔
        ∀ row ∈ visible rows, ∀ above, Below rows row above → Reaches rows x above →
          Below rows row x) := by
  have hhidden := h.listing.visible_fold hx
  refine ⟨hhidden, fun hown row hrow above habove hreach => ?_, fun hown => ?_⟩
  · by_contra hbelow
    -- The row is kept on the one side, so a row with its key is kept on the other side.
    have hkey : row.key ∈ ((visible rows).filter fun row => ¬ Below rows row x).map key :=
      List.mem_map_of_mem (List.mem_filter.mpr ⟨hrow, decide_eq_true hbelow⟩)
    rw [← hown.keys, hhidden.keys] at hkey
    obtain ⟨other, hother, hsame⟩ := List.mem_map.mp hkey
    obtain ⟨hvisible, hspared⟩ := List.mem_filter.mp hother
    have hrows : ∀ r ∈ visible rows, r ∈ rows := fun r hr => (h.listing.mem_visible.mp hr).1
    obtain rfl := h.listing.eq_of_key (hrows other hvisible) (hrows row hrow) hsame
    exact of_decide_eq_true hspared above habove hreach
  · have hsame : ((visible rows).filter fun row => ¬ Below rows row x) =
        (visible rows).filter fun row => ∀ above, Below rows row above → ¬ Reaches rows x above := by
      refine List.filter_congr fun row hrow => decide_eq_decide.mpr ⟨?_, ?_⟩
      · exact fun hbelow above habove hreach => hbelow (hown row hrow above habove hreach)
      · exact fun hspared hbelow => hspared x hbelow .refl
    rwa [hsame]

/-- T stands below S, which is reached from A: it is hidden with B when A is folded. -/
theorem visible_toggle_crossed : ∃ rows x, Refolded (flatten crossed) rows ∧ x ∈ rows ∧
    x.key = "A" ∧ (visible rows).map key = ["R", "S", "T", "A", "B"] ∧
    ((visible rows).filter fun row => ∀ above, Below rows row above → ¬ Reaches rows x above).map
      key = ["R", "S", "A"] := by
  have h := refolded_expandAll (flatten crossed)
  have hx := mem_crossed.1
  have hhidden := (visible_toggle h hx).1
  exact ⟨_, _, h, hx, by cbv, by cbv, by rw [← hhidden.keys]; cbv⟩

/-- Folding B hides T, whose row hangs below the root: B lists the code of its parent. -/
theorem toggle_hides_elsewhere : ∃ rows x, Refolded (flatten crossed) rows ∧ x ∈ rows ∧
    x.key = "B" ∧ (visible rows).map key = ["R", "S", "T", "A", "B"] ∧
    (visible (toggle rows x false).1).map key = ["R", "S", "A", "B"] ∧
    ¬ Refolded ((visible rows).filter fun row => ¬ Below rows row x)
      (visible (toggle rows x false).1) := by
  have h := refolded_expandAll (flatten crossed)
  have ht : rowOf? (visible (expandAll (flatten crossed))) "T" =
      some ((branch "T" []).placed 2 (some "S")).opened := by cbv
  have hleft : (visible (toggle (expandAll (flatten crossed)) crossedB false).1).map key =
      ["R", "S", "A", "B"] := by cbv
  refine ⟨_, _, h, mem_crossed.2, by cbv, by cbv, hleft, fun hown => ?_⟩
  have htmem := rowOf?_mem ht
  -- Rows hang below rows at smaller levels only, and T and B are at the same level.
  have htop : ¬ Below (expandAll (flatten crossed)) ((branch "T" []).placed 2 (some "S")).opened
      crossedB := fun hbelow =>
    Int.lt_irrefl 2 (hbelow.level h.listing (h.listing.mem_visible.mp htmem).1)
  have hkept : "T" ∈ ["R", "S", "A", "B"] := by
    rw [← hleft, hown.keys]
    exact List.mem_map.mpr ⟨_, List.mem_filter.mpr ⟨htmem, decide_eq_true htop⟩, by cbv⟩
  revert hkept
  decide

end Hidden

/-- The rows after a row was folded and unfolded again. -/
def reopened (rows : List Node) (x : Node) : List Node :=
  let folded := toggle rows x false
  (toggle folded.1 folded.2 true).1

/-- What is reached from a row is folded then, but for the row itself. -/
noncomputable def reopenedFlag (rows : List Node) (x row : Node) : Bool :=
  (row.expanded && !decide (Reaches rows x row)) || decide (row.key = x.key)

@[simp] theorem reopenedFlag_self : reopenedFlag rows x x = true := by
  simp [reopenedFlag]

section Reopened

variable (h : IsListing rows) (hx : x ∈ rows)
include h hx

theorem IsListing.reopened_eq : reopened rows x = reflag (reopenedFlag rows x) rows := by
  have hfolded := h.toggle_false hx rfl
  have hmem : x.flagged false ∈ (toggle rows x false).1 := by
    rw [hfolded]
    exact List.mem_map.mpr ⟨x, hx, by simp [Reaches, Relation.ReflTransGen.refl]⟩
  have hlisting : IsListing (toggle rows x false).1 := by
    rw [hfolded]
    exact (refolded_reflag _ rows).isListing h
  have hunfolded := hlisting.toggle_true hmem rfl
  rw [hfolded, reflag, reflag, List.map_map] at hunfolded
  rw [reopened, hfolded, reflag]
  exact hunfolded

theorem reopenedFlag_of_reaches (hrow : row ∈ rows) (hne : row ≠ x) (hreach : Reaches rows x row) :
    reopenedFlag rows x row = false := by
  have hkey : row.key ≠ x.key := fun hkey => hne (h.eq_of_key hrow hx hkey)
  simp [reopenedFlag, hreach, hkey]

theorem below_reopened : Below (reflag (reopenedFlag rows x) rows)
    (row.flagged (reopenedFlag rows x row)) (x.flagged true) ↔ Below rows row x := by
  rw [below_reflag]
  constructor
  · rintro ⟨other, hother, hsame⟩
    have hkey : x.key = other.key := congrArg (·.key) hsame
    rwa [h.eq_of_key hx hother.mem hkey]
  · exact fun hbelow => ⟨x, hbelow, by rw [reopenedFlag_self]⟩

/-- The children of a row that was unfolded again are folded. -/
theorem IsListing.folded_children : ∀ row ∈ reopened rows x, row.parentRef = some x.key →
    row.expanded = false := by
  intro row hrow href
  rw [h.reopened_eq hx] at hrow
  obtain ⟨other, hother, rfl⟩ := List.mem_map.mp hrow
  have hbelow : Below rows other x := .single ⟨hx, href⟩
  exact reopenedFlag_of_reaches h hx hother (hbelow.ne h hother)
    (reaches_of_below h hother hbelow)

theorem IsListing.visible_below_reopened :
    (visible (reopened rows x)).filter (fun row => Below (reopened rows x) row (x.flagged true)) =
      reflag (reopenedFlag rows x) (rows.filter fun row => Below rows row x ∧
        ∀ above, Below rows row above → reopenedFlag rows x above = true) := by
  rw [h.reopened_eq hx, h.visible_reflag, filter_reflag, List.filter_filter]
  congr 1
  refine List.filter_congr fun row _ => ?_
  rw [← Bool.decide_and, decide_eq_decide, below_reopened h hx]

/-- What stands below a row that is shown again are its children: all others are below one of them. -/
theorem shown_iff_of_apart (hopen : Exposed rows x)
    (hapart : ∀ above, Below rows x above → ¬ Reaches rows x above) :
    (Below rows row x ∧ ∀ above, Below rows row above → reopenedFlag rows x above = true) ↔
      row.parentRef = some x.key := by
  constructor
  · rintro ⟨hbelow, hflags⟩
    obtain ⟨parent, hparent, hrest⟩ := Relation.TransGen.head'_iff.mp hbelow
    rcases Relation.reflTransGen_iff_eq_or_transGen.mp hrest with rfl | hrest
    · exact hparent.2
    · have hfolded := reopenedFlag_of_reaches h hx hparent.1 (Below.ne h hparent.1 hrest)
        (reaches_of_below h hparent.1 hrest)
      rw [hflags parent (.single hparent)] at hfolded
      cases hfolded
  · intro href
    refine ⟨.single ⟨hx, href⟩, forall_above_iff.mpr fun parent hparent => ?_⟩
    have hkey : parent.key = x.key := Option.some.inj (hparent.2.symm.trans href)
    obtain rfl := h.eq_of_key hparent.1 hx hkey
    refine ⟨reopenedFlag_self, fun above habove => ?_⟩
    simp [reopenedFlag, hopen above habove, hapart above habove]

theorem not_shown_of_reaches (habove : Below rows x above) (hreach : Reaches rows x above) :
    ¬ (Below rows row x ∧ ∀ above, Below rows row above → reopenedFlag rows x above = true) := by
  rintro ⟨hbelow, hflags⟩
  have hfolded := reopenedFlag_of_reaches h hx habove.mem (habove.ne h hx).symm hreach
  rw [hflags above (hbelow.trans habove)] at hfolded
  cases hfolded

end Reopened

/-- The children of a visible row that was folded and unfolded again are folded. They are all that is
shown below it exactly if no row above it is reached from it or it has none; if one is reached, nothing
is shown below it. -/
theorem visible_reopened (h : Refolded (flatten root) rows) (hx : x ∈ visible rows) :
    (∀ row ∈ reopened rows x, row.parentRef = some x.key → row.expanded = false) ∧
    ((visible (reopened rows x)).filter (fun row => Below (reopened rows x) row (x.flagged true)) =
        (reopened rows x).filter (fun row => row.parentRef = some x.key) ↔
      (∀ above, Below rows x above → ¬ Reaches rows x above) ∨
        ∀ row ∈ rows, row.parentRef ≠ some x.key) ∧
    ((∃ above, Below rows x above ∧ Reaches rows x above) →
      ∀ row ∈ visible (reopened rows x), ¬ Below (reopened rows x) row (x.flagged true)) := by
  obtain ⟨hmem, hopen⟩ := h.listing.mem_visible.mp hx
  have hbelow := h.listing.visible_below_reopened hmem
  have hchildren : (reopened rows x).filter (fun row => row.parentRef = some x.key) =
      reflag (reopenedFlag rows x) (rows.filter fun row => row.parentRef = some x.key) := by
    rw [h.listing.reopened_eq hmem, filter_reflag]
    rfl
  have hnothing : (∃ above, Below rows x above ∧ Reaches rows x above) →
      (visible (reopened rows x)).filter
        (fun row => Below (reopened rows x) row (x.flagged true)) = [] := by
    rintro ⟨above, habove, hreach⟩
    rw [hbelow, List.filter_eq_nil_iff.mpr]
    · rfl
    · simpa only [decide_eq_true_eq] using
        fun row _ => not_shown_of_reaches h.listing hmem habove hreach
  refine ⟨h.listing.folded_children hmem, ⟨fun heq => ?_, fun hcases => ?_⟩, fun hexists => ?_⟩
  · by_cases hexists : ∃ above, Below rows x above ∧ Reaches rows x above
    · right
      intro row hrow href
      rw [hnothing hexists, hchildren] at heq
      have hempty := List.filter_eq_nil_iff.mp (List.map_eq_nil_iff.mp heq.symm)
      exact hempty row hrow (decide_eq_true href)
    · exact .inl fun above habove hreach => hexists ⟨above, habove, hreach⟩
  · rw [hbelow, hchildren]
    congr 1
    refine List.filter_congr fun row hrow => decide_eq_decide.mpr ?_
    rcases hcases with hapart | hleaf
    · exact shown_iff_of_apart h.listing hmem hopen hapart
    · refine iff_of_false (fun hshown => ?_) (hleaf row hrow)
      obtain ⟨child, hchild, hparent⟩ := hshown.1.exists_child hrow
      exact hleaf child hchild hparent.2
  · simpa using List.filter_eq_nil_iff.mp (hnothing hexists)

/-- Nothing above A is reached from it, so its only child is shown again, and nothing below that. -/
theorem visible_reopened_crossed : ∃ rows x, Refolded (flatten crossed) rows ∧ x ∈ visible rows ∧
    x.key = "A" ∧ (visible (reopened rows x)).map key = ["R", "S", "A", "B"] ∧
    ((visible (reopened rows x)).filter fun row => Below (reopened rows x) row (x.flagged true)).map
      key = ["B"] := by
  have hx : rowOf? (visible (expandAll (flatten crossed))) "A" = some crossedA := by cbv
  have h := refolded_expandAll (flatten crossed)
  have hmem := (h.listing.mem_visible.mp (rowOf?_mem hx)).1
  have hlow : ((expandAll (flatten crossed)).all fun row =>
      decide (row.key ∈ keysBelow (expandAll (flatten crossed)) crossedA →
        crossedA.level ≤ row.level)) = true := by cbv
  have hapart : ∀ above, Below (expandAll (flatten crossed)) crossedA above →
      ¬ Reaches (expandAll (flatten crossed)) crossedA above := by
    intro above habove hreach
    have hkey := (mem_keysBelow h.listing hmem habove.mem).mpr hreach
    have hle := of_decide_eq_true (List.all_eq_true.mp hlow above habove.mem) hkey
    exact absurd (habove.level h.listing hmem) (Int.not_lt.mpr hle)
  have hchildren : ((reopened (expandAll (flatten crossed)) crossedA).filter
      fun row => row.parentRef = some crossedA.key).map key = ["B"] := by cbv
  refine ⟨_, _, h, rowOf?_mem hx, by cbv, by cbv, ?_⟩
  rw [(visible_reopened h (rowOf?_mem hx)).2.1.mpr (.inl hapart), hchildren]

/-- The code R stands at the root and below its child A. -/
def looped : Node := branch "R" [branch "A" [branch "R" [], branch "C" []]]

def loopedA : Node := ((branch "A" [branch "R" [], branch "C" []]).placed 1 (some "R")).opened

/-- After A was folded and unfolded again, neither A nor its child C is shown: the root is folded. -/
theorem reopened_hides_itself : ∃ rows x, Refolded (flatten looped) rows ∧ x ∈ visible rows ∧
    x.key = "A" ∧ (visible rows).map key = ["R", "A", "C"] ∧
    ((reopened rows x).filter fun row => row.parentRef = some x.key).map key = ["C"] ∧
    (visible (reopened rows x)).map key = ["R"] ∧
    (visible (reopened rows x)).filter (fun row => Below (reopened rows x) row (x.flagged true)) ≠
      (reopened rows x).filter fun row => row.parentRef = some x.key := by
  have hx : rowOf? (visible (expandAll (flatten looped))) "A" = some loopedA := by cbv
  have h := refolded_expandAll (flatten looped)
  have hchildren : ((reopened (expandAll (flatten looped)) loopedA).filter
      fun row => row.parentRef = some loopedA.key).map key = ["C"] := by cbv
  have hshown : (visible (reopened (expandAll (flatten looped)) loopedA)).map key = ["R"] := by cbv
  refine ⟨_, _, h, rowOf?_mem hx, by cbv, by cbv, hchildren, hshown, fun heq => ?_⟩
  have hkeys := (congrArg (List.map key) heq).trans hchildren
  have hc := List.mem_singleton_self "C"
  rw [← hkeys] at hc
  have hr := (List.filter_sublist.map key).subset hc
  rw [hshown] at hr
  revert hr
  decide

end AdminConsole.Node
