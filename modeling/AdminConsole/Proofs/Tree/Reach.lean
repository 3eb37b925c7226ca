import AdminConsole.Proofs.Tree.Ancestry

/-!
What folding a row folds. From the row one goes to the rows keyed like its children, and on from those,
until no other row is found. The way ends, on cycles of keys too, and leads to every row that hangs
below the first one.
-/

namespace AdminConsole.Node

/-- A row lists another one, if that is keyed like one of its children. -/
def Lists (rows : List Node) (row next : Node) : Prop :=
  next ∈ rows ∧ ∃ child ∈ row.childList, child.key = next.key

/-- What is listed is reached, and what is listed by that. -/
def Reaches (rows : List Node) : Node → Node → Prop := Relation.ReflTransGen (Lists rows)

/-- The way from pending nodes to its end, where nothing is pending any more. -/
inductive Closes (rows : List Node) : List String → List Node → List String → Prop where
  | stop (reached : List String) : Closes rows reached [] reached
  | go (reached : List String) (n : Node) (pending : List Node) (result : List String) :
    Closes rows (((freshRows rows reached n.childList).map key).reverse ++ reached)
      ((freshRows rows reached n.childList).reverse ++ pending) result →
    Closes rows reached (n :: pending) result

variable {rows pending children : List Node} {reached keys : List String} {row next n x root : Node}

section Fresh

theorem exists_child_of_mem_freshRows (h : row ∈ freshRows rows reached children) :
    ∃ child ∈ children, rowOf? rows child.key = some row := by
  fun_induction freshRows rows reached children with
  | case1 => cases h
  | case2 reached child rest _ ih | case3 reached child rest _ _ _ ih =>
    obtain ⟨found, hfound, hrow⟩ := ih h
    exact ⟨found, List.mem_cons_of_mem child hfound, hrow⟩
  | case4 reached child rest found hlookup _ ih =>
    rcases List.mem_cons.mp h with rfl | h
    · exact ⟨child, List.mem_cons_self, hlookup⟩
    · obtain ⟨other, hother, hrow⟩ := ih h
      exact ⟨other, List.mem_cons_of_mem child hother, hrow⟩

/-- Fresh rows are listed by the node that they come from. -/
theorem lists_of_mem_freshRows (hrow : row ∈ freshRows rows reached n.childList) :
    Lists rows n row := by
  obtain ⟨child, hchild, hlookup⟩ := exists_child_of_mem_freshRows hrow
  exact ⟨rowOf?_mem hlookup, child, hchild, (rowOf?_key hlookup).symm⟩

/-- The row of a child was reached before or is fresh. -/
theorem mem_freshRows {child : Node} (hchild : child ∈ children)
    (hrow : rowOf? rows child.key = some row) :
    row.key ∈ reached ∨ row.key ∈ (freshRows rows reached children).map key := by
  fun_induction freshRows rows reached children with
  | case1 => cases hchild
  | case2 reached first rest hnone ih =>
    rcases List.mem_cons.mp hchild with rfl | hchild
    · rw [hrow] at hnone
      cases hnone
    · exact ih hchild
  | case3 reached first rest found hfound hseen ih =>
    rcases List.mem_cons.mp hchild with rfl | hchild
    · rw [hrow, Option.some.injEq] at hfound
      exact .inl (hfound ▸ hseen)
    · exact ih hchild
  | case4 reached first rest found hfound _ ih =>
    rw [List.map_cons, List.mem_cons]
    rcases List.mem_cons.mp hchild with rfl | hchild
    · rw [hrow, Option.some.injEq] at hfound
      exact .inr (.inl (hfound ▸ rfl))
    · rcases ih hchild with hmem | hmem
      · rcases List.mem_cons.mp hmem with hkey | hmem
        · exact .inr (.inl hkey)
        · exact .inl hmem
      · exact .inr (.inr hmem)

/-- How many rows were not reached yet. -/
def unreached (rows : List Node) (reached : List String) : Nat :=
  (rows.filter (·.key ∉ reached)).length

theorem unreached_cons_lt (hrow : row ∈ rows) (hfresh : row.key ∉ reached) :
    unreached rows (row.key :: reached) < unreached rows reached := by
  have hsplit : rows.filter (·.key ∉ row.key :: reached) =
      (rows.filter (·.key ∉ reached)).filter (·.key ≠ row.key) := by
    rw [List.filter_filter]
    apply List.filter_congr
    intro other _
    simp
  rw [unreached, hsplit]
  apply List.length_filter_lt_length_iff_exists.mpr
  exact ⟨row, by simp [hrow, hfresh], by simp⟩

theorem unreached_freshRows (rows : List Node) (reached : List String) (children : List Node) :
    unreached rows (((freshRows rows reached children).map key).reverse ++ reached) +
      (freshRows rows reached children).length ≤ unreached rows reached := by
  fun_induction freshRows rows reached children with
  | case1 => simp
  | case2 reached child rest _ ih | case3 reached child rest _ _ _ ih => exact ih
  | case4 reached child rest found hfound hfresh ih =>
    have hlt := unreached_cons_lt (rowOf?_mem hfound) hfresh
    simp only [List.map_cons, List.reverse_cons, List.append_assoc, List.singleton_append,
      List.length_cons]
    omega

end Fresh

/-- Each step takes one node and adds as many as it reaches, so steps for all rows are enough. -/
theorem closes_reach {fuel : Nat} (h : pending.length + unreached rows reached ≤ fuel) :
    Closes rows reached pending (reach rows fuel reached pending) := by
  induction fuel generalizing reached pending with
  | zero =>
    obtain rfl := List.length_eq_zero_iff.mp (by omega : pending.length = 0)
    exact .stop reached
  | succ fuel ih =>
    cases pending with
    | nil => exact .stop reached
    | cons n pending =>
      refine .go reached n pending _ (ih ?_)
      have hfresh := unreached_freshRows rows reached n.childList
      rw [List.length_append, List.length_reverse]
      rw [List.length_cons] at h
      omega

theorem closes_keysBelow (rows : List Node) (n : Node) :
    Closes rows [n.key] [n] (keysBelow rows n) := by
  refine closes_reach ?_
  have hle : unreached rows [n.key] ≤ rows.length := List.length_filter_le _ _
  rw [List.length_singleton]
  omega

/-- What is true on the way from a row. -/
structure Underway (rows : List Node) (x : Node) (reached : List String) (pending : List Node) :
    Prop where
  start : x.key ∈ reached
  sound : ∀ row ∈ rows, row.key ∈ reached → Reaches rows x row
  waiting : ∀ n ∈ pending, n ∈ rows ∧ Reaches rows x n
  /-- The rows that a row lists are reached when it is pending no more. -/
  listed : ∀ row ∈ rows, row.key ∈ reached → row ∈ pending ∨
    ∀ next, Lists rows row next → next.key ∈ reached

/-- At the end nothing is pending, so all rows that are reached list only rows that are reached. -/
theorem Underway.complete (hway : Underway rows x keys []) (hx : x ∈ rows)
    (hreach : Reaches rows x row) : row ∈ rows ∧ row.key ∈ keys := by
  induction hreach with
  | refl => exact ⟨hx, hway.start⟩
  | tail _ hlists ih =>
    obtain ⟨hmem, hkey⟩ := ih
    exact ⟨hlists.1, (hway.listed _ hmem hkey).resolve_left List.not_mem_nil _ hlists⟩

section Way

variable (h : IsListing rows)
include h

theorem Underway.begin (hx : x ∈ rows) : Underway rows x [x.key] [x] := by
  have hself : ∀ row ∈ rows, row.key ∈ [x.key] → row = x :=
    fun row hrow hkey => h.eq_of_key hrow hx (List.mem_singleton.mp hkey)
  refine ⟨List.mem_cons_self, fun row hrow hkey => ?_, fun n hn => ?_, fun row hrow hkey => ?_⟩
  · exact hself row hrow hkey ▸ .refl
  · obtain rfl := List.mem_singleton.mp hn
    exact ⟨hx, .refl⟩
  · exact .inl (hself row hrow hkey ▸ List.mem_cons_self)

theorem mem_freshRows_of_key (hrow : row ∈ rows)
    (hkey : row.key ∈ (freshRows rows reached n.childList).map key) :
    row ∈ freshRows rows reached n.childList := by
  obtain ⟨other, hother, hsame⟩ := List.mem_map.mp hkey
  rwa [← h.eq_of_key (lists_of_mem_freshRows hother).1 hrow hsame]

theorem Underway.step (hway : Underway rows x reached (n :: pending)) :
    Underway rows x (((freshRows rows reached n.childList).map key).reverse ++ reached)
      ((freshRows rows reached n.childList).reverse ++ pending) := by
  have hreach : ∀ row ∈ freshRows rows reached n.childList, Reaches rows x row :=
    fun row hrow => (hway.waiting n List.mem_cons_self).2.tail (lists_of_mem_freshRows hrow)
  have hsplit : ∀ k, k ∈ ((freshRows rows reached n.childList).map key).reverse ++ reached ↔
      k ∈ reached ∨ k ∈ (freshRows rows reached n.childList).map key := by
    intro k
    rw [List.mem_append, List.mem_reverse, or_comm]
  refine ⟨(hsplit _).mpr (.inl hway.start), ?_, ?_, ?_⟩
  · intro row hrow hkey
    rcases (hsplit _).mp hkey with hkey | hkey
    · exact hway.sound row hrow hkey
    · exact hreach row (mem_freshRows_of_key h hrow hkey)
  · intro row hrow
    rcases List.mem_append.mp hrow with hrow | hrow
    · have hfresh := List.mem_reverse.mp hrow
      exact ⟨(lists_of_mem_freshRows hfresh).1, hreach row hfresh⟩
    · exact hway.waiting row (List.mem_cons_of_mem n hrow)
  · intro row hrow hkey
    rcases (hsplit _).mp hkey with hkey | hkey
    · rcases hway.listed row hrow hkey with hpending | hlisted
      · rcases List.mem_cons.mp hpending with rfl | hpending
        · right
          rintro next ⟨hnext, child, hchild, hsame⟩
          refine (hsplit _).mpr (mem_freshRows hchild ?_)
          rw [hsame, rowOf?_of_nodup h.nodup hnext]
        · exact .inl (List.mem_append_right _ hpending)
      · exact .inr fun next hnext => (hsplit _).mpr (.inl (hlisted next hnext))
    · have hfresh := mem_freshRows_of_key h hrow hkey
      exact .inl (List.mem_append_left _ (List.mem_reverse.mpr hfresh))

theorem Underway.run (hclose : Closes rows reached pending keys)
    (hway : Underway rows x reached pending) : Underway rows x keys [] := by
  induction hclose with
  | stop => exact hway
  | go _ _ _ _ _ ih => exact ih (hway.step h)

theorem mem_keysBelow (hx : x ∈ rows) (hrow : row ∈ rows) :
    row.key ∈ keysBelow rows x ↔ Reaches rows x row := by
  have hway := (Underway.begin h hx).run h (closes_keysBelow rows x)
  exact ⟨hway.sound row hrow, fun hreach => (hway.complete hx hreach).2⟩

/-- A parent lists its rows, so what hangs below a row is reached from it. -/
theorem reaches_of_below (hrow : row ∈ rows) (hbelow : Below rows row x) : Reaches rows x row := by
  induction hbelow with
  | single hparent => exact .single ⟨hrow, h.exists_child hrow hparent⟩
  | tail hbelow hparent ih =>
    have hmem := Below.mem hbelow
    exact .head ⟨hmem, h.exists_child hmem hparent⟩ ih

end Way

theorem setFlags_eq (hnodup : (rows.map key).Nodup) (keys : List String) (b : Bool) :
    setFlags keys b rows = reflag (fun row => if row.key ∈ keys then b else row.expanded) rows := by
  induction rows generalizing keys with
  | nil => rfl
  | cons first rest ih =>
    obtain ⟨hfirst, hrest⟩ := List.nodup_cons.mp hnodup
    rw [setFlags, reflag, List.map_cons]
    split
    · rw [ih hrest]
      congr 1
      refine List.map_congr_left fun row hrow => ?_
      have hne : row.key ≠ first.key := fun heq => hfirst (heq ▸ List.mem_map_of_mem hrow)
      simp [hne]
    · rw [ih hrest, flagged_self]
      rfl

section Toggle

open Classical

variable (h : IsListing rows) (hx : x ∈ rows) (hn : n.key = x.key)
include h hx hn

theorem target_eq : (rowOf? rows n.key).getD n = x := by
  rw [hn, rowOf?_of_nodup h.nodup hx, Option.getD_some]

theorem toggle_false_keys : (toggle rows n false).1 = setFlags (keysBelow rows x) false rows := by
  rw [toggle, target_eq h hx hn]
  rfl

theorem IsListing.toggle_false : (toggle rows n false).1 =
    reflag (fun row => row.expanded && !decide (Reaches rows x row)) rows := by
  rw [toggle_false_keys h hx hn, setFlags_eq h.nodup]
  refine List.map_congr_left fun row hrow => ?_
  congr 1
  by_cases hreach : Reaches rows x row <;> simp [mem_keysBelow h hx hrow, hreach]

theorem IsListing.toggle_true : (toggle rows n true).1 =
    reflag (fun row => row.expanded || decide (row.key = x.key)) rows := by
  have hkeys : (toggle rows n true).1 = setFlags [x.key] true rows := by
    rw [toggle, target_eq h hx hn]
    rfl
  rw [hkeys, setFlags_eq h.nodup]
  refine List.map_congr_left fun row _ => ?_
  congr 1
  by_cases hkey : row.key = x.key <;> simp [hkey]

end Toggle

open Classical in
/-- Folding a row folds what is reached from it, unfolding it unfolds nothing else, and neither changes
more than flags. The way to what is reached comes to its end and leads to all that hangs below. -/
theorem toggle_reach (h : Refolded (flatten root) rows) (hx : x ∈ rows) (hn : n.key = x.key) :
    (∀ b, Refolded rows (toggle rows n b).1) ∧
    (∃ keys, Closes rows [x.key] [x] keys ∧ (toggle rows n false).1 = setFlags keys false rows) ∧
    (toggle rows n false).1 =
      reflag (fun row => row.expanded && !decide (Reaches rows x row)) rows ∧
    (toggle rows n true).1 = reflag (fun row => row.expanded || decide (row = x)) rows ∧
    ∀ row ∈ rows, Below rows row x → Reaches rows x row := by
  have hfold := h.listing.toggle_false hx hn
  have hunfold := h.listing.toggle_true hx hn
  refine ⟨fun b => ?_, ⟨keysBelow rows x, closes_keysBelow rows x, ?_⟩, hfold, ?_, fun row hrow => ?_⟩
  · cases b with
    | false => exact hfold ▸ refolded_reflag _ rows
    | true => exact hunfold ▸ refolded_reflag _ rows
  · exact toggle_false_keys h.listing hx hn
  · rw [hunfold]
    refine List.map_congr_left fun row hrow => ?_
    have hsame : row.key = x.key ↔ row = x := ⟨h.listing.eq_of_key hrow hx, congrArg key⟩
    simp only [hsame]
  · exact reaches_of_below h.listing hrow

/-- The keys of rows with their flags. -/
def flags (rows : List Node) : List (String × Bool) := rows.map fun row => (row.key, row.expanded)

open Classical in
/-- From B the row of S is reached, which hangs below the root: both are folded with B. -/
theorem toggle_reach_crossed : ∃ rows x, Refolded (flatten crossed) rows ∧ x ∈ rows ∧
    (branch "B" [branch "S" []]).key = x.key ∧
    flags rows = [("R", true), ("S", true), ("T", false), ("A", true), ("B", true)] ∧
    flags (reflag (fun row => row.expanded && !decide (Reaches rows x row)) rows) =
      [("R", true), ("S", false), ("T", false), ("A", true), ("B", false)] := by
  have h := refolded_expandAll (flatten crossed)
  have hx := mem_crossed.2
  obtain ⟨-, -, hfold, -, -⟩ := toggle_reach (n := branch "B" [branch "S" []]) h hx (by cbv)
  exact ⟨_, _, h, hx, by cbv, by cbv, by rw [← hfold]; cbv⟩

end AdminConsole.Node
