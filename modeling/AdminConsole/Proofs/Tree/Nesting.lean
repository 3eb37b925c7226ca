import AdminConsole.Proofs.Tree.Visible

/-!
Rows by their places. The root is listed at the first place. Every other row hangs from exactly one
row before it, its parent: it stands one level below the parent and only rows below the parent stand
between them, so levels and order alone tell the tree that parents and keys tell.
-/

namespace AdminConsole.Node

/-- The row at a place hangs from the row at another one, its parent. -/
structure HangsFrom (rows : List Node) (i : Nat) (row : Node) (j : Nat) (parent : Node) : Prop where
  place : rows[j]? = some parent
  before : j < i
  ref : row.parentRef = some parent.key
  /-- No other row before it has the key of the parent. -/
  only : ∀ k < i, ∀ other, rows[k]? = some other → row.parentRef = some other.key → k = j
  level : row.level = parent.level + 1
  between : ∀ k, j < k → k < i → ∀ other, rows[k]? = some other → parent.level < other.level
  child : ∃ child ∈ parent.childList, child.key = row.key
  lookup : parentRow? rows row = some parent

variable {rows : List Node} {row : Node}

theorem place_unique {i j : Nat} {a b : Node} (hnodup : (rows.map key).Nodup)
    (ha : rows[i]? = some a) (hb : rows[j]? = some b) (hkey : a.key = b.key) : i = j := by
  have hi : i < (rows.map key).length := by
    simpa using (List.getElem?_eq_some_iff.mp ha).1
  apply (List.getElem?_inj hi hnodup).mp
  rw [List.getElem?_map, List.getElem?_map, ha, hb, Option.map_some, Option.map_some, hkey]

/-- The row found by a key is the one that has it. -/
theorem rowOf?_of_nodup (hnodup : (rows.map key).Nodup) (hrow : row ∈ rows) :
    rowOf? rows row.key = some row := by
  obtain ⟨found, hfound⟩ := exists_rowOf? (List.mem_map_of_mem hrow)
  obtain ⟨i, hi⟩ := List.mem_iff_getElem?.mp hrow
  obtain ⟨j, hj⟩ := List.mem_iff_getElem?.mp (rowOf?_mem hfound)
  have hsame := place_unique hnodup hi hj (rowOf?_key hfound).symm
  subst hsame
  rw [hi, Option.some.injEq] at hj
  rw [hfound, hj]

theorem hangsFrom_of_split {above between after : List Node} {parent : Node}
    (hnodup : ((above ++ parent :: between ++ row :: after).map key).Nodup)
    (hmem : row ∈ parent.childRows) (hlevels : ∀ r ∈ between, parent.level < r.level) :
    HangsFrom (above ++ parent :: between ++ row :: after) (above ++ parent :: between).length row
      above.length parent := by
  have hplace : (above ++ parent :: between ++ row :: after)[above.length]? = some parent := by simp
  have href := parentRef_childRows hmem
  refine ⟨hplace, by simp, href, ?_, level_childRows hmem, ?_, ?_, ?_⟩
  · intro k _ other hother hkey
    rw [href, Option.some.injEq] at hkey
    exact place_unique hnodup hother hplace hkey.symm
  · intro k hlow hhigh other hother
    apply hlevels
    rw [List.getElem?_append_left hhigh, List.getElem?_append_right (Nat.le_of_lt hlow)] at hother
    obtain ⟨k, rfl⟩ := Nat.exists_eq_add_of_lt hlow
    rw [show above.length + k + 1 - above.length = k + 1 by omega,
      List.getElem?_cons_succ] at hother
    exact List.mem_of_getElem? hother
  · obtain ⟨child, hchild, rfl⟩ := List.mem_map.mp hmem
    exact ⟨child, hchild, rfl⟩
  · rw [parentRow?, href, Option.bind_some]
    exact rowOf?_of_nodup hnodup (by simp)

/-- The rows of a tree have distinct keys. The first is the root, without a parent at level 0, and every
other one hangs from a row before it. -/
theorem flatten_hangs (root : Node) :
    ((flatten root).map key).Nodup ∧
    (∃ first, (flatten root)[0]? = some first ∧ first.level = 0 ∧ first.parentRef = none) ∧
    ∀ i row, 0 < i → (flatten root)[i]? = some row →
      ∃ j parent, HangsFrom (flatten root) i row j parent := by
  have hnodup := flatten_nodup root
  refine ⟨hnodup, ?_, ?_⟩
  · obtain ⟨rest, hflatten, _⟩ := exists_flatten root
    exact ⟨root.placed 0 none, by rw [hflatten, List.getElem?_cons_zero], rfl, rfl⟩
  · intro i row hpos hrow
    obtain ⟨hi, rfl⟩ := List.getElem?_eq_some_iff.mp hrow
    have hsplit : flatten root =
        (flatten root).take i ++ (flatten root)[i] :: (flatten root).drop (i + 1) := by
      rw [List.getElem_cons_drop, List.take_append_drop]
    have hlength : ((flatten root).take i).length = i := List.length_take_of_le (Nat.le_of_lt hi)
    rcases flatten_arises hsplit with ⟨hnil, _⟩ | ⟨above, parent, between, htake, hmem, hlevels⟩
    · rw [hnil, List.length_nil] at hlength
      omega
    · rw [htake] at hsplit hlength
      rw [hsplit] at hnodup
      have hhangs := hangsFrom_of_split hnodup hmem hlevels
      rw [← hsplit, hlength] at hhangs
      exact ⟨above.length, parent, hhangs⟩

end AdminConsole.Node
