import AdminConsole.Proofs.Tree.Listed
import AdminConsole.Proofs.Tree.Visible

/-!
What a view shows. Shown as one list, a view agrees with its roots shown one by one exactly if no
row of a root has a parent that an earlier root has a row for.
-/

namespace AdminConsole

open Node

namespace View

def rowsOf (v : View) (root : Node) : List Node := (Entries.get? root.key v.rows).getD []

theorem allRows_eq (v : View) : v.allRows = v.roots.flatMap v.rowsOf := rfl

/-- Views that are the same up to the flags of their rows. -/
structure Refolded (v v' : View) : Prop where
  roots : v'.roots = v.roots
  rows : v'.rows.map (fun entry => (entry.1, entry.2.map (flagged false))) =
    v.rows.map fun entry => (entry.1, entry.2.map (flagged false))

/-- A view with flags chosen for each root. -/
def refold (choice : String → Bool) (v : View) : View :=
  { v with rows := v.rows.map fun entry => (entry.1, entry.2.map (flagged (choice entry.1))) }

variable {v v' : View} {choice : String → Bool} {root row : Node}

theorem refolded_refold (choice : String → Bool) (v : View) : v.Refolded (v.refold choice) := by
  refine ⟨rfl, ?_⟩
  simp [refold, Function.comp_def]

theorem Refolded.rowsOf (h : v.Refolded v') (root : Node) :
    Node.Refolded (v.rowsOf root) (v'.rowsOf root) := by
  have hrows := congrArg (Entries.get? root.key) h.rows
  rw [Entries.get?_map fun _ => List.map (flagged false),
    Entries.get?_map fun _ => List.map (flagged false)] at hrows
  simp only [Node.Refolded, View.rowsOf]
  cases hv : Entries.get? root.key v.rows <;> cases hv' : Entries.get? root.key v'.rows <;>
    simp_all

theorem rowsOf_refold : (v.refold choice).rowsOf root =
    (v.rowsOf root).map (flagged (choice root.key)) := by
  simp only [rowsOf, refold]
  rw [Entries.get?_map fun key => List.map (flagged (choice key))]
  cases Entries.get? root.key v.rows <;> rfl

theorem expanded_refold (h : row ∈ (v.refold choice).rowsOf root) :
    row.expanded = choice root.key := by
  rw [rowsOf_refold] at h
  obtain ⟨_, _, rfl⟩ := List.mem_map.mp h
  rfl

theorem rowsOf_expandEvery : v.expandEvery.rowsOf root = expandAll (v.rowsOf root) := by
  have hrows : v.expandEvery.rows = v.rows.map fun entry =>
      (entry.1, if (Entries.names v.rows).contains entry.1 then expandAll entry.2 else entry.2) :=
    rfl
  rw [rowsOf, hrows, Entries.get?_map fun key rows =>
    if (Entries.names v.rows).contains key then expandAll rows else rows, rowsOf]
  cases hget : Entries.get? root.key v.rows with
  | none => rfl
  | some rows =>
    have hmem : root.key ∈ Entries.names v.rows := List.mem_map_of_mem (Entries.mem_of_get? hget)
    simp [hmem]

theorem refolded_expandEvery (v : View) : v.Refolded v.expandEvery := by
  refine ⟨rfl, ?_⟩
  rw [expandEvery, expand, List.map_map]
  refine List.map_congr_left fun entry _ => ?_
  simp only [Function.comp_apply]
  split
  · rw [refolded_expandAll entry.2]
  · rfl

theorem allRows_expandEvery (v : View) : v.expandEvery.allRows = expandAll v.allRows := by
  rw [allRows_eq, allRows_eq, expandAll, List.map_flatMap]
  exact congrArg (fun f => v.roots.flatMap f) (funext fun root => rowsOf_expandEvery)

section Joined

variable (hnested : ∀ root ∈ v.roots, Nested (v.rowsOf root))
include hnested

theorem visible_of_apart
    (hapart : v.roots.Pairwise fun earlier later => Apart (v.rowsOf earlier) (v.rowsOf later)) :
    visible v.allRows = v.roots.flatMap fun root => visible (v.rowsOf root) := by
  have hvisible : visible (v.roots.map v.rowsOf).flatten =
      (v.roots.map v.rowsOf).flatMap visible :=
    visible_flatten (by simpa using hnested) (List.pairwise_map.mpr hapart)
  rwa [← List.flatMap_def, List.flatMap_map] at hvisible

/-- For two roots the flags tell: the rows of the roots before the later one are folded, all others
are unfolded. -/
theorem apart_of_visible (hkeys : (v.roots.map key).Nodup)
    (h : ∀ v', v.Refolded v' →
      visible v'.allRows = v'.roots.flatMap fun root => visible (v'.rowsOf root)) :
    v.roots.Pairwise fun earlier later => Apart (v.rowsOf earlier) (v.rowsOf later) := by
  rw [List.pairwise_iff_forall_sublist]
  intro earlier later hsublist
  obtain ⟨before, after, hroots, hearlier, hafter⟩ := List.cons_sublist_iff.mp hsublist
  have hlater : later ∈ after := hafter.subset List.mem_cons_self
  let w := v.refold fun k => decide (k ∉ before.map key)
  have hw : v.Refolded w := refolded_refold _ v
  have hnested' : ∀ root ∈ v.roots, Nested (w.rowsOf root) :=
    fun root hroot => (hw.rowsOf root).nested (hnested root hroot)
  have hflatten : Apart (before.map w.rowsOf).flatten (after.map w.rowsOf).flatten := by
    apply Node.apart_of_visible
    · simpa using fun root hroot => hnested' root (hroots ▸ List.mem_append_left _ hroot)
    · simpa using fun root hroot => hnested' root (hroots ▸ List.mem_append_right _ hroot)
    · intro rows hrows row hrow
      obtain ⟨root, hroot, rfl⟩ := List.mem_map.mp hrows
      rw [expanded_refold hrow]
      simpa using List.mem_map_of_mem hroot
    · intro rows hrows row hrow
      obtain ⟨root, hroot, rfl⟩ := List.mem_map.mp hrows
      rw [expanded_refold hrow, decide_eq_true_eq]
      rw [hroots, List.map_append] at hkeys
      intro hmem
      exact (List.nodup_append.mp hkeys).2.2 _ hmem _ (List.mem_map_of_mem hroot) rfl
    · have hvisible := h w hw
      rw [allRows_eq, hw.roots, hroots] at hvisible
      rwa [← List.map_append, ← List.flatMap_def, List.flatMap_map]
  have hapart : Apart (w.rowsOf earlier) (w.rowsOf later) := by
    intro row hrow p hp hmem
    refine hflatten row (List.mem_flatten_of_mem (List.mem_map_of_mem hlater) hrow) p hp ?_
    obtain ⟨parent, hparent, hkey⟩ := List.mem_map.mp hmem
    exact List.mem_map.mpr
      ⟨parent, List.mem_flatten_of_mem (List.mem_map_of_mem hearlier) hparent, hkey⟩
  exact (hw.rowsOf earlier).symm.apart (hw.rowsOf later).symm hapart

end Joined

section Rows

variable {roots : List Node} {report : Report}

theorem rowsOf_ofRoots (report : Report) (h : root ∈ roots) :
    ∃ other ∈ roots, (ofRoots roots report).rowsOf root = flatten other := by
  obtain ⟨other, hother, _, hrows⟩ := rows_of_root report h
  exact ⟨other, hother, by rw [rowsOf, hrows]; rfl⟩

theorem nested_rowsOf (h : root ∈ roots) : Nested ((ofRoots roots report).rowsOf root) := by
  obtain ⟨other, _, hrows⟩ := rowsOf_ofRoots report h
  exact hrows ▸ flatten_nested other

theorem nested_allRows : Nested (ofRoots roots report).allRows := by
  rw [allRows_eq, List.flatMap_def]
  refine Nested.flatten fun rows hrows => ?_
  obtain ⟨root, hroot, rfl⟩ := List.mem_map.mp hrows
  exact nested_rowsOf hroot

theorem folded_allRows : ∀ row ∈ (ofRoots roots report).allRows, row.expanded = false := by
  intro row hrow
  obtain ⟨root, _, hflat, _⟩ := mem_allRows hrow
  exact flatten_folded hflat

end Rows

end View

namespace Resolve

/-- A view agrees with its roots shown one by one, whatever is folded, exactly if no row of a root
has a parent that an earlier root has a row for. It shows all rows once every row is unfolded
exactly if the first row with the key of a parent has children. -/
theorem load_shows_roots {σ : Type} {t : Tuning} {source : Source σ} {depth : Nat} {parent : String}
    {s : σ} {manner : Manner σ} {v : View} {ledger : Ledger σ}
    (h : load t source depth parent s manner = (.ok v, ledger)) (hkeys : (v.roots.map key).Nodup) :
    ((∀ v', v.Refolded v' →
        visible v'.allRows = v'.roots.flatMap fun root => visible (v'.rowsOf root)) ↔
      v.roots.Pairwise fun earlier later => Apart (v.rowsOf earlier) (v.rowsOf later)) ∧
    (visible v.expandEvery.allRows = v.expandEvery.allRows ↔
      ∀ row ∈ v.allRows, ∀ above, parentRow? v.allRows row = some above →
        above.hasChildren = true) := by
  obtain ⟨roots, _, rfl⟩ := resolve_of_load h
  have hnested : ∀ root ∈ roots, Nested ((View.ofRoots roots ledger.report).rowsOf root) :=
    fun root hroot => View.nested_rowsOf hroot
  refine ⟨⟨View.apart_of_visible hnested hkeys, fun hapart v' hv' => ?_⟩, ?_⟩
  · have hnested' : ∀ root ∈ v'.roots, Nested (v'.rowsOf root) := by
      rw [hv'.roots]
      exact fun root hroot => (hv'.rowsOf root).nested (hnested root hroot)
    apply View.visible_of_apart hnested'
    rw [hv'.roots]
    exact hapart.imp fun h => (hv'.rowsOf _).apart (hv'.rowsOf _) h
  · rw [View.allRows_expandEvery]
    exact visible_expandAll_iff View.nested_allRows View.folded_allRows

theorem load_shows_roots_tangled : ∃ v,
    (load twice Script.source 4 "0" tangled .inSequence).1 = .ok v ∧
    (v.roots.map key).Nodup ∧
    ((∀ v', v.Refolded v' →
        visible v'.allRows = v'.roots.flatMap fun root => visible (v'.rowsOf root)) ↔
      v.roots.Pairwise fun earlier later => Apart (v.rowsOf earlier) (v.rowsOf later)) ∧
    (visible v.expandEvery.allRows = v.expandEvery.allRows ↔
      ∀ row ∈ v.allRows, ∀ above, parentRow? v.allRows row = some above →
        above.hasChildren = true) := by
  have hroots : untangled.map key = ["R", "S"] := by cbv
  have hkeys : (untangled.map key).Nodup := hroots ▸ by decide
  exact ⟨_, load_tangled, hkeys, load_shows_roots (Prod.ext load_tangled rfl) hkeys⟩

/-- A root that stands below another root as well. -/
def nestedRoot : Script :=
  [("0", [brings ["A", "B"]]), ("A", [brings ["B"]]), ("B", [brings ["X"]])]

/-- The row of a root's child is hidden although all rows are unfolded. -/
theorem load_hides_row : ∃ v,
    (load twice Script.source nestedRoot.depth "0" nestedRoot .inSequence).1 = .ok v ∧
    v.roots.map key = ["A", "B"] ∧ v.Refolded v.expandEvery ∧
    (v.expandEvery.roots.flatMap fun root => visible (v.expandEvery.rowsOf root)).map key =
      ["A", "B", "B", "X"] ∧
    v.expandEvery.allRows.map key = ["A", "B", "B", "X"] ∧
    (visible v.expandEvery.allRows).map key = ["A", "B", "B"] := by
  refine ⟨.ofRoots [coded "A" [coded "B" []], coded "B" [coded "X" []]] ⟨4, 0, []⟩, by cbv,
    by cbv, View.refolded_expandEvery _, by cbv, by cbv, by cbv⟩

end Resolve

end AdminConsole
