import AdminConsole.Proofs.Tree.Ancestry

/-!
Nodes with the same key. Of these only the first is listed, and the others are left out with all that
is below them. No key gets lost if they have the same tree of keys: whatever stands below a node that
was left out stands below the one that was listed as well, under the same keys.
-/

namespace AdminConsole.Node

/-- A way down from a node, through children with the given keys. -/
def LeadsDown (n : Node) : List String → Prop
  | [] => True
  | k :: way => ∃ child ∈ n.childList, child.key = k ∧ LeadsDown child way

/-- The same tree of keys hangs below two nodes: the same ways lead down from both. In what order
children stand, and how often, does not matter. -/
def SameKeys (a b : Node) : Prop := ∀ way, LeadsDown a way ↔ LeadsDown b way

/-- Nodes of a tree with the same key have the same tree of keys below them. -/
def Consistent (root : Node) : Prop :=
  ∀ d, ∀ a ∈ atDepth d [root], ∀ e, ∀ b ∈ atDepth e [root], a.key = b.key → SameKeys a b

variable {root n row a b c : Node}

theorem sameKeys_refl (n : Node) : SameKeys n n := fun _ => Iff.rfl

theorem SameKeys.symm (h : SameKeys a b) : SameKeys b a := fun way => (h way).symm

theorem SameKeys.trans (hab : SameKeys a b) (hbc : SameKeys b c) : SameKeys a c :=
  fun way => (hab way).trans (hbc way)

theorem SameKeys.child (h : SameKeys a b) {child : Node} (hchild : child ∈ a.childList) :
    ∃ other ∈ b.childList, other.key = child.key := by
  obtain ⟨other, hother, hkey, -⟩ := (h [child.key]).mp ⟨child, hchild, rfl, trivial⟩
  exact ⟨other, hother, hkey⟩

theorem LeadsDown.transfer {way : List String} (h : LeadsDown a way)
    (hchildren : ∀ child ∈ a.childList, ∃ other ∈ b.childList,
      other.key = child.key ∧ SameKeys child other) : LeadsDown b way := by
  cases way with
  | nil => trivial
  | cons k way =>
    obtain ⟨child, hchild, rfl, hway⟩ := h
    obtain ⟨other, hother, hkey, hsame⟩ := hchildren child hchild
    exact ⟨other, hother, hkey, (hsame way).mp hway⟩

theorem sameKeys_of_children
    (hforth : ∀ child ∈ a.childList, ∃ other ∈ b.childList,
      other.key = child.key ∧ SameKeys child other)
    (hback : ∀ child ∈ b.childList, ∃ other ∈ a.childList,
      other.key = child.key ∧ SameKeys child other) : SameKeys a b :=
  fun _ => ⟨fun h => h.transfer hforth, fun h => h.transfer hback⟩

/-- A row has the key of the node that it was made of, and the same keys below it. -/
theorem exists_node_of_row (h : row ∈ flatten root) :
    ∃ d, ∃ n ∈ atDepth d [root], row.key = n.key ∧ SameKeys row n := by
  obtain ⟨d, n, hn, -, hrecord, hchildren⟩ := flatten_node h
  have hkey : row.key = n.key := by rw [key, key, hrecord]
  have hlist : row.childList = n.childList := by rw [childList, childList, hchildren]
  refine ⟨d, n, hn, hkey, sameKeys_of_children ?_ ?_⟩
  · exact fun child hchild => ⟨child, hlist ▸ hchild, rfl, sameKeys_refl child⟩
  · exact fun child hchild => ⟨child, hlist ▸ hchild, rfl, sameKeys_refl child⟩

theorem Consistent.sameKeys (h : Consistent root) {d : Nat} (hn : n ∈ atDepth d [root])
    (hrow : row ∈ flatten root) (hkey : row.key = n.key) : SameKeys row n := by
  obtain ⟨e, m, hm, hrowkey, hsame⟩ := exists_node_of_row hrow
  exact hsame.trans (h e m hm d n hn (hrowkey.symm.trans hkey))

/-- Every node is stood for by a row: by its own, or by that of the node that was listed before. -/
theorem Consistent.exists_row (h : Consistent root) {d : Nat} (hn : n ∈ atDepth d [root]) :
    ∃ row ∈ flatten root, row.key = n.key := by
  -- On the way down from the root, the row that stands for a parent brings the keys of all its children.
  induction d generalizing n with
  | zero =>
    obtain rfl := List.mem_singleton.mp hn
    exact List.mem_map.mp (flatten_root n)
  | succ d ih =>
    obtain ⟨parent, hparent, hchild⟩ := mem_atDepth_succ.mp hn
    obtain ⟨above, habove, hkey⟩ := ih hparent
    obtain ⟨other, hother, hsame⟩ := (h.sameKeys hparent habove hkey).symm.child hchild
    rw [← hsame]
    exact List.mem_map.mp (flatten_children habove other hother)

/-- If nodes with the same key have the same tree of keys below them, a listing loses nothing: the keys
of the rows are the keys of all nodes, each of them once, and what hangs below a node hangs below its
row. -/
theorem flatten_keeps_keys (h : Consistent root) :
    (∀ k, k ∈ (flatten root).map key ↔ ∃ d, ∃ n ∈ atDepth d [root], n.key = k) ∧
      ((flatten root).map key).Nodup ∧
      ∀ d, ∀ n ∈ atDepth d [root], ∀ row ∈ flatten root, row.key = n.key → SameKeys row n := by
  refine ⟨fun k => ⟨fun hk => ?_, fun hk => ?_⟩, flatten_nodup root, fun d n hn row hrow hkey =>
    h.sameKeys hn hrow hkey⟩
  · obtain ⟨row, hrow, rfl⟩ := List.mem_map.mp hk
    obtain ⟨d, n, hn, hkey, -⟩ := exists_node_of_row hrow
    exact ⟨d, n, hn, hkey.symm⟩
  · obtain ⟨d, n, hn, rfl⟩ := hk
    obtain ⟨row, hrow, hkey⟩ := h.exists_row hn
    exact List.mem_map.mpr ⟨row, hrow, hkey⟩

/-- S with two children. -/
def sorted : Node := branch "S" [branch "T" [], branch "U" []]

/-- S with the same children in another order, one of them twice. -/
def shuffled : Node := branch "S" [branch "U" [], branch "T" [], branch "U" []]

def reshuffled : Node := branch "R" [branch "A" [sorted], shuffled]

theorem sameKeys_shuffled : SameKeys sorted shuffled := by
  apply sameKeys_of_children
  · intro child hchild
    refine ⟨child, ?_, rfl, sameKeys_refl child⟩
    simp [sorted, shuffled, branch, childList] at hchild ⊢
    tauto
  · intro child hchild
    refine ⟨child, ?_, rfl, sameKeys_refl child⟩
    simp [sorted, shuffled, branch, childList] at hchild ⊢
    tauto

theorem mem_reshuffled (d : Nat) : ∀ n ∈ atDepth d [reshuffled],
    n ∈ [reshuffled, branch "A" [sorted], sorted, shuffled, branch "T" [], branch "U" []] := by
  intro n hn
  rcases d with _ | _ | _ | _ | d <;>
    simp [atDepth, reshuffled, branch, childList, sorted, shuffled, atDepth_nil] at hn ⊢ <;> tauto

theorem consistent_reshuffled : Consistent reshuffled := by
  intro d a ha e b hb hkey
  have ha := mem_reshuffled d a ha
  have hb := mem_reshuffled e b hb
  simp only [List.mem_cons, List.not_mem_nil, or_false] at ha hb
  rcases ha with rfl | rfl | rfl | rfl | rfl | rfl <;>
    rcases hb with rfl | rfl | rfl | rfl | rfl | rfl <;>
    first
      | exact sameKeys_refl _
      | exact sameKeys_shuffled
      | exact sameKeys_shuffled.symm
      | exact absurd hkey (by decide)

theorem flatten_keeps_keys_reshuffled : Consistent reshuffled ∧
    (flatten reshuffled).map key = ["R", "A", "S", "T", "U"] ∧
    ∀ k, k ∈ (flatten reshuffled).map key ↔ ∃ d, ∃ n ∈ atDepth d [reshuffled], n.key = k :=
  ⟨consistent_reshuffled, by cbv, (flatten_keeps_keys consistent_reshuffled).1⟩

end AdminConsole.Node
