import AdminConsole.Proofs.Tree.Rows

/-!
Walking a tree by recursion. The keys that were seen go through the walk: into the first child, from
there to the next, and back up. What is listed from a stack of pending rows is what this walk lists.
-/

namespace AdminConsole.Node

theorem size_pos (n : Node) : 0 < n.size := by
  rw [size_eq]
  omega

theorem sizes_childList_lt (n : Node) : sizes n.childList < n.size := by
  rw [size_eq]
  omega

mutual

/-- The rows of a node and of all below it, and the keys that were seen by the end. A node with a
key that was seen before is left out with all below it. -/
def preorder (depth : Nat) (parentRef : Option String) (seen : List String) (n : Node) :
    List Node × List String :=
  if n.key ∈ seen then ([], seen)
  else
    let (below, seen) := preorders (depth + 1) (some n.key) (n.key :: seen) n.childList
    ({ n with level := depth, expanded := false, parentRef } :: below, seen)
termination_by (n.size, 0)
decreasing_by exact Prod.Lex.left _ _ n.sizes_childList_lt

/-- The same for the children of a node, from the first to the last. -/
def preorders (depth : Nat) (parentRef : Option String) (seen : List String) :
    List Node → List Node × List String
  | [] => ([], seen)
  | n :: rest =>
    let (rows, seen) := preorder depth parentRef seen n
    let (later, seen) := preorders depth parentRef seen rest
    (rows ++ later, seen)
termination_by ns => (sizes ns, 1)
decreasing_by
  · exact Prod.Lex.right' _ (by simp [sizes]) Nat.zero_lt_one
  · exact Prod.Lex.left _ _ (by simp [sizes, n.size_pos])

end

mutual

/-- A pending row on top of the stack is listed as the walk lists it, then the rest with the keys that
were seen by then. -/
theorem walk_preorder (depth : Nat) (parentRef : Option String) (seen : List String) (n : Node)
    (rest : List Node) : walk seen (n.placed depth parentRef :: rest) =
      (preorder depth parentRef seen n).1 ++ walk (preorder depth parentRef seen n).2 rest := by
  rw [walk, preorder, placed_key]
  by_cases hseen : n.key ∈ seen
  · rw [if_pos hseen, if_pos hseen, List.nil_append]
  · have hchildren : (n.placed depth parentRef).childRows =
        n.childList.map (placed ((depth + 1 : Nat) : Int) (some n.key)) := rfl
    rw [if_neg hseen, if_neg hseen, hchildren, walk_preorders]
    rfl
termination_by (n.size, 0)
decreasing_by exact Prod.Lex.left _ _ n.sizes_childList_lt

theorem walk_preorders (depth : Nat) (parentRef : Option String) (seen : List String)
    (ns rest : List Node) : walk seen (ns.map (placed depth parentRef) ++ rest) =
      (preorders depth parentRef seen ns).1 ++ walk (preorders depth parentRef seen ns).2 rest := by
  cases ns with
  | nil => rw [preorders, List.map_nil, List.nil_append, List.nil_append]
  | cons n later =>
    rw [List.map_cons, List.cons_append, walk_preorder, walk_preorders, preorders,
      List.append_assoc]
termination_by (sizes ns, 1)
decreasing_by
  · exact Prod.Lex.right' _ (by simp [sizes]) Nat.zero_lt_one
  · exact Prod.Lex.left _ _ (by simp [sizes, n.size_pos])

end

/-- The rows of a tree are those of the recursive walk from the root. -/
theorem flatten_eq_preorder (root : Node) : flatten root = (preorder 0 none [] root).1 := by
  have hwalk := walk_preorder 0 none [] root []
  rw [walk, List.append_nil] at hwalk
  exact hwalk

end AdminConsole.Node
