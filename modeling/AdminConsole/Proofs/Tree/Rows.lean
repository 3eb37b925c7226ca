import AdminConsole.Tree.View

/-!
The rows of a tree. They are nodes of the tree, each with its depth as level; the children of a row
and the parent of a row have rows as well, the parent before its children with only rows below it in
between, and no key has two rows.
-/

namespace AdminConsole.Node

def leaf (n : Node) : Node := { n with children := none }

@[simp] theorem leaf_record (n : Node) : n.leaf.record = n.record := rfl

theorem leaf_of_children {n : Node} (h : n.children = none) : n.leaf = n := by
  obtain ⟨_, _, _, _, _⟩ := n
  cases h
  rfl

/-- The nodes at a depth of a forest. -/
def atDepth : Nat → List Node → List Node
  | 0, ns => ns
  | d + 1, ns => atDepth d (ns.flatMap childList)

theorem mem_atDepth_congr {a b : List Node} (h : ∀ n, n ∈ a ↔ n ∈ b) (d : Nat) (n : Node) :
    n ∈ atDepth d a ↔ n ∈ atDepth d b := by
  induction d generalizing a b with
  | zero => exact h n
  | succ d ih =>
    apply ih
    intro child
    simp only [List.mem_flatMap, h]

theorem atDepth_nil (d : Nat) : atDepth d [] = [] := by
  induction d with
  | zero => rfl
  | succ d ih => exact ih

/-- The children of a node that has got some nodes: none, unless there are any. -/
def someChildren : List Node → Option (List Node)
  | [] => none
  | n :: rest => some (n :: rest)

theorem mem_atDepth_succ {d : Nat} {ns : List Node} {n : Node} :
    n ∈ atDepth (d + 1) ns ↔ ∃ parent ∈ atDepth d ns, n ∈ parent.childList := by
  induction d generalizing ns with
  | zero => simp [atDepth]
  | succ d ih => exact ih

theorem atDepth_mono {a b : List Node} (h : ∀ n ∈ a, n ∈ b) (d : Nat) :
    ∀ n ∈ atDepth d a, n ∈ atDepth d b := by
  induction d with
  | zero => exact h
  | succ d ih =>
    intro n hn
    obtain ⟨parent, hparent, hchild⟩ := mem_atDepth_succ.mp hn
    exact mem_atDepth_succ.mpr ⟨parent, ih parent hparent, hchild⟩

@[simp] theorem placed_key (level : Int) (parentRef : Option String) (n : Node) :
    (n.placed level parentRef).key = n.key := rfl

@[simp] theorem placed_childList (level : Int) (parentRef : Option String) (n : Node) :
    (n.placed level parentRef).childList = n.childList := rfl

/-- What holds of the rows to come and passes from a row to its children holds of every row. -/
theorem walk_all {P : Node → Prop} (hdown : ∀ row, P row → ∀ child ∈ row.childRows, P child)
    {seen : List String} {pending : List Node} (h : ∀ row ∈ pending, P row) :
    ∀ row ∈ walk seen pending, P row := by
  fun_induction walk seen pending with
  | case1 => simp
  | case2 seen row rest _ ih => exact ih fun r hr => h r (List.mem_cons_of_mem _ hr)
  | case3 seen row rest _ ih =>
    have hrow := h row List.mem_cons_self
    intro r hr
    rcases List.mem_cons.mp hr with rfl | hr
    · exact hrow
    · refine ih ?_ r hr
      intro next hnext
      rcases List.mem_append.mp hnext with hchild | hrest
      · exact hdown row hrow next hchild
      · exact h next (List.mem_cons_of_mem _ hrest)

theorem walk_pending {seen : List String} {pending : List Node} :
    ∀ row ∈ pending, row.key ∈ seen ∨ row.key ∈ (walk seen pending).map key := by
  fun_induction walk seen pending with
  | case1 => simp
  | case2 seen row rest hseen ih =>
    intro r hr
    rcases List.mem_cons.mp hr with rfl | hr
    · exact .inl hseen
    · exact ih r hr
  | case3 seen row rest _ ih =>
    intro r hr
    rcases List.mem_cons.mp hr with rfl | hr
    · exact .inr (by simp)
    · rcases ih r (List.mem_append_right _ hr) with h | h
      · rcases List.mem_cons.mp h with h | h
        · exact .inr (by simp [h])
        · exact .inl h
      · exact .inr (List.mem_cons_of_mem _ h)

theorem walk_children {seen : List String} {pending : List Node} :
    ∀ row ∈ walk seen pending, ∀ child ∈ row.childList,
      child.key ∈ seen ∨ child.key ∈ (walk seen pending).map key := by
  fun_induction walk seen pending with
  | case1 => simp
  | case2 seen row rest _ ih => exact ih
  | case3 seen row rest _ ih =>
    intro r hr child hchild
    have hnext : child.key ∈ row.key :: seen ∨
        child.key ∈ (walk (row.key :: seen) (row.childRows ++ rest)).map key := by
      rcases List.mem_cons.mp hr with rfl | hr
      · exact walk_pending (child.placed (r.level + 1) (some r.key))
          (List.mem_append_left _ (List.mem_map_of_mem hchild))
      · exact ih r hr child hchild
    rcases hnext with h | h
    · rcases List.mem_cons.mp h with h | h
      · exact .inr (by simp [h])
      · exact .inl h
    · exact .inr (List.mem_cons_of_mem _ h)

theorem walk_keys {seen : List String} {pending : List Node} :
    ((walk seen pending).map key).Nodup ∧ ∀ row ∈ walk seen pending, row.key ∉ seen := by
  fun_induction walk seen pending with
  | case1 => simp
  | case2 seen row rest _ ih => exact ih
  | case3 seen row rest hseen ih =>
    obtain ⟨hnodup, hfresh⟩ := ih
    constructor
    · rw [List.map_cons, List.nodup_cons]
      refine ⟨fun hmem => ?_, hnodup⟩
      obtain ⟨r, hr, hkey⟩ := List.mem_map.mp hmem
      exact hfresh r hr (hkey ▸ List.mem_cons_self)
    · intro r hr
      rcases List.mem_cons.mp hr with rfl | hr
      · exact hseen
      · exact fun hmem => hfresh r hr (List.mem_cons_of_mem _ hmem)

/-- Rows whose parents come before them. -/
def Nested (rows : List Node) : Prop :=
  ∀ before row after, rows = before ++ row :: after → ∀ ref, row.parentRef = some ref →
    ref ∈ before.map key

/-- A list that is split in two ways, once before an element: the element is in the second part, or
in the first. -/
theorem append_eq_append_cons {α : Type} {a b c d : List α} {x : α} (h : a ++ b = c ++ x :: d) :
    (∃ middle, c = a ++ middle ∧ b = middle ++ x :: d) ∨
      ∃ middle, a = c ++ x :: middle ∧ d = middle ++ b := by
  rcases List.append_eq_append_iff.mp h with ⟨middle, hc, hb⟩ | ⟨middle, ha, hd⟩
  · exact .inl ⟨middle, hc, hb⟩
  · cases middle with
    | nil => exact .inl ⟨[], by simpa using ha.symm, by simpa using hd.symm⟩
    | cons first middle =>
      obtain ⟨rfl, rfl⟩ := List.cons.inj hd
      exact .inr ⟨middle, ha, rfl⟩

/-- How a row comes to be listed after some others. Either it is one of the pending rows, and the rows
before it come from earlier ones of those, none above all of them. Or its parent is among the rows
before it, and the rows since stand below the parent. -/
inductive Arises (pending before : List Node) (row : Node) : Prop where
  | pending (earlier later : List Node) : pending = earlier ++ row :: later →
    (∀ r ∈ before, ∃ p ∈ earlier, p.level ≤ r.level) → Arises pending before row
  | child (above between : List Node) (parent : Node) : before = above ++ parent :: between →
    row ∈ parent.childRows → (∀ r ∈ between, parent.level < r.level) → Arises pending before row

theorem level_childRows {row child : Node} (h : child ∈ row.childRows) :
    child.level = row.level + 1 := by
  obtain ⟨_, _, rfl⟩ := List.mem_map.mp h
  rfl

theorem parentRef_childRows {row child : Node} (h : child ∈ row.childRows) :
    child.parentRef = some row.key := by
  obtain ⟨_, _, rfl⟩ := List.mem_map.mp h
  rfl

theorem Arises.skip {pending before : List Node} {row : Node} (h : Arises pending before row)
    (first : Node) : Arises (first :: pending) before row := by
  cases h with
  | pending earlier later heq hlevels =>
    refine .pending (first :: earlier) later (by rw [heq, List.cons_append]) fun r hr => ?_
    obtain ⟨p, hp, hle⟩ := hlevels r hr
    exact ⟨p, List.mem_cons_of_mem first hp, hle⟩
  | child above between parent heq hmem hlevels =>
    exact .child above between parent heq hmem hlevels

/-- The children of a row that is listed take its place. -/
theorem Arises.descend {rest before : List Node} {first row : Node}
    (h : Arises (first.childRows ++ rest) before row) :
    Arises (first :: rest) (first :: before) row := by
  cases h with
  | pending earlier later heq hlevels =>
    rcases append_eq_append_cons heq with ⟨middle, rfl, hrest⟩ | ⟨middle, hchildren, _⟩
    · refine .pending (first :: middle) later (by rw [hrest, List.cons_append]) fun r hr => ?_
      rcases List.mem_cons.mp hr with rfl | hr
      · exact ⟨r, List.mem_cons_self, Int.le_refl _⟩
      · obtain ⟨p, hp, hle⟩ := hlevels r hr
        rcases List.mem_append.mp hp with hchild | hp
        · have hlevel := level_childRows hchild
          exact ⟨first, List.mem_cons_self, by omega⟩
        · exact ⟨p, List.mem_cons_of_mem first hp, hle⟩
    · refine .child [] before first rfl (by simp [hchildren]) fun r hr => ?_
      obtain ⟨p, hp, hle⟩ := hlevels r hr
      have hlevel := level_childRows (hchildren ▸ List.mem_append_left _ hp : p ∈ first.childRows)
      omega
  | child above between parent heq hmem hlevels =>
    exact .child (first :: above) between parent (by rw [heq, List.cons_append]) hmem hlevels

theorem walk_arises {seen : List String} {pending : List Node} :
    ∀ before row after, walk seen pending = before ++ row :: after → Arises pending before row := by
  fun_induction walk seen pending with
  | case1 => simp
  | case2 seen row rest _ ih => exact fun before r after hsplit => (ih before r after hsplit).skip row
  | case3 seen row rest _ ih =>
    intro before r after hsplit
    cases before with
    | nil =>
      obtain ⟨rfl, _⟩ := List.cons.inj hsplit
      exact .pending [] rest rfl (by simp)
    | cons first before =>
      obtain ⟨rfl, htail⟩ := List.cons.inj hsplit
      exact (ih before r after htail).descend

section Flatten

variable {root row : Node}

theorem flatten_node (h : row ∈ flatten root) : ∃ d, ∃ n ∈ atDepth d [root],
    row.level = d ∧ row.record = n.record ∧ row.children = n.children := by
  refine walk_all (P := fun row => ∃ d, ∃ n ∈ atDepth d [root],
    row.level = (d : Int) ∧ row.record = n.record ∧ row.children = n.children) ?_ ?_ row h
  · intro row hrow child hchild
    obtain ⟨d, n, hn, hlevel, hrecord, hchildren⟩ := hrow
    obtain ⟨m, hm, rfl⟩ := List.mem_map.mp hchild
    refine ⟨d + 1, m, mem_atDepth_succ.mpr ⟨n, hn, ?_⟩, ?_, rfl, rfl⟩
    · rwa [childList, ← hchildren]
    · simp [placed, hlevel]
  · intro row hrow
    obtain rfl := List.mem_singleton.mp hrow
    exact ⟨0, root, List.mem_singleton_self root, rfl, rfl, rfl⟩

/-- A root stands at level 0, and all its other rows below. -/
theorem exists_flatten (root : Node) :
    ∃ rest, flatten root = root.placed 0 none :: rest ∧ ∀ row ∈ rest, 0 < row.level := by
  refine ⟨walk [root.key] (root.placed 0 none).childRows, ?_, ?_⟩
  · rw [flatten, walk, if_neg List.not_mem_nil, List.append_nil, placed_key]
  · refine walk_all (P := fun row => 0 < row.level) ?_ ?_
    · intro row hrow child hchild
      have hlevel := level_childRows hchild
      omega
    · intro row hrow
      have hlevel : row.level = 0 + 1 := level_childRows hrow
      omega

theorem flatten_root (root : Node) : root.key ∈ (flatten root).map key := by
  have h : root.key ∈ [] ∨ root.key ∈ (flatten root).map key :=
    walk_pending (root.placed 0 none) List.mem_cons_self
  exact h.resolve_left List.not_mem_nil

theorem flatten_children (h : row ∈ flatten root) :
    ∀ child ∈ row.childList, child.key ∈ (flatten root).map key := by
  intro child hchild
  exact (walk_children row h child hchild).resolve_left List.not_mem_nil

theorem flatten_nodup (root : Node) : ((flatten root).map key).Nodup := walk_keys.1

/-- The root is listed first. Every other row comes after its parent, and what stands between them
is below the parent. -/
theorem flatten_arises {before after : List Node} (h : flatten root = before ++ row :: after) :
    (before = [] ∧ row = root.placed 0 none) ∨
      ∃ above parent between, before = above ++ parent :: between ∧ row ∈ parent.childRows ∧
        ∀ r ∈ between, parent.level < r.level := by
  cases walk_arises before row after h with
  | pending earlier later heq hlevels =>
    obtain ⟨rfl, hrow⟩ | ⟨middle, _, hnil⟩ := List.cons_eq_append_iff.mp heq
    · obtain ⟨rfl, _⟩ := List.cons.inj hrow
      refine .inl ⟨List.eq_nil_iff_forall_not_mem.mpr fun r hr => ?_, rfl⟩
      obtain ⟨_, hnone, _⟩ := hlevels r hr
      cases hnone
    · simp at hnil
  | child above between parent heq hmem hlevels =>
    exact .inr ⟨above, parent, between, heq, hmem, hlevels⟩

theorem flatten_nested (root : Node) : Nested (flatten root) := by
  intro before row after hsplit ref href
  rcases flatten_arises hsplit with ⟨_, rfl⟩ | ⟨above, parent, between, rfl, hmem, _⟩
  · cases href
  · rw [parentRef_childRows hmem, Option.some.injEq] at href
    simp [← href]

theorem flatten_folded (h : row ∈ flatten root) : row.expanded = false := by
  refine walk_all (P := fun row => row.expanded = false) ?_ ?_ row h
  · intro row _ child hchild
    obtain ⟨_, _, rfl⟩ := List.mem_map.mp hchild
    rfl
  · intro row hrow
    obtain rfl := List.mem_singleton.mp hrow
    rfl

end Flatten

end AdminConsole.Node
