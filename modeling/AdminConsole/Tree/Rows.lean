import AdminConsole.Tree.Node

/-!
Listings of a tree. A tree is listed in pre-order, one row for each key: a node whose key was seen
before is left out together with its subtree. A row is a node with its level and the key of its
parent; rows begin folded.
-/

namespace AdminConsole.Node

def placed (level : Int) (parentRef : Option String) (n : Node) : Node :=
  { n with level, expanded := false, parentRef }

theorem size_placed (level : Int) (parentRef : Option String) (n : Node) :
    (n.placed level parentRef).size = n.size := by
  simp [size_eq, placed, childList]

theorem sizes_map_placed (level : Int) (parentRef : Option String) (ns : List Node) :
    sizes (ns.map (placed level parentRef)) = sizes ns := by
  induction ns with
  | nil => rfl
  | cons n rest ih => simp [sizes, size_placed, ih]

def childRows (row : Node) : List Node :=
  row.childList.map (placed (row.level + 1) (some row.key))

theorem sizes_childRows (row : Node) : sizes row.childRows + 1 = row.size := by
  rw [childRows, sizes_map_placed, size_eq, Nat.add_comm]

/-- Lists the rows that are still to come, given the keys that were seen. -/
def walk (seen : List String) : List Node → List Node
  | [] => []
  | row :: rest =>
    if row.key ∈ seen then walk seen rest
    else row :: walk (row.key :: seen) (row.childRows ++ rest)
termination_by pending => sizes pending
decreasing_by
  · simp only [sizes, size_eq]
    omega
  · have := sizes_childRows row
    simp only [sizes_append, sizes]
    omega

def flatten (root : Node) : List Node := walk [] [root.placed 0 none]

/-- The rows of each root under the root's key. A later root with the same key takes the place of
an earlier one. -/
def flattenForest (roots : List Node) : Entries (List Node) :=
  Entries.ofList (roots.map fun root => (root.key, flatten root))

end AdminConsole.Node
