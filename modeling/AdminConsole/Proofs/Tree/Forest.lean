import Mathlib.Data.List.Permutation
import AdminConsole.Proofs.Tree.Rows

/-!
The rows of a forest. A view keeps the rows of its roots by key, so what it lists for a root are the
rows of the last root with the same key. It lists the own rows of every root exactly if roots with
one key have the same rows.
-/

namespace AdminConsole

namespace Node

variable {roots : List Node} {root : Node}

/-- The last of some roots that has the key of a root. -/
def lastKeyed (roots : List Node) (root : Node) : Node :=
  (roots.filter fun other => other.key = root.key).getLast?.getD root

theorem getLast?_keyed (h : root ∈ roots) :
    (roots.filter fun other => other.key = root.key).getLast? = some (lastKeyed roots root) := by
  have hmem : root ∈ roots.filter fun other => other.key = root.key := by simp [h]
  rw [lastKeyed, List.getLast?_eq_some_getLast (List.ne_nil_of_mem hmem)]
  rfl

theorem lastKeyed_mem (h : root ∈ roots) :
    lastKeyed roots root ∈ roots ∧ (lastKeyed roots root).key = root.key := by
  have hmem := List.mem_of_getLast? (getLast?_keyed h)
  simpa using hmem

theorem lastKeyed_congr {a b : Node} (ha : a ∈ roots) (hb : b ∈ roots) (h : a.key = b.key) :
    lastKeyed roots a = lastKeyed roots b := by
  have hlast := getLast?_keyed ha
  rw [h, getLast?_keyed hb, Option.some.injEq] at hlast
  exact hlast.symm

theorem get?_flattenForest (h : root ∈ roots) :
    Entries.get? root.key (flattenForest roots) = some (flatten (lastKeyed roots root)) := by
  have hroots : ((roots.map fun other => (other.key, flatten other)).filter
      fun entry => entry.1 = root.key) =
        (roots.filter fun other => other.key = root.key).map fun other => (other.key, flatten other) :=
    List.filter_map
  rw [flattenForest, Entries.get?_ofList, hroots, List.getLast?_map, getLast?_keyed h]
  rfl

/-- The rows of roots end where the rows of the next root begin. -/
theorem takeWhile_flatMap_flatten (f : Node → Node) (roots : List Node) :
    (roots.flatMap fun root => flatten (f root)).takeWhile (fun row => 0 < row.level) = [] := by
  cases roots with
  | nil => rfl
  | cons root rest =>
    obtain ⟨below, hbelow, _⟩ := exists_flatten (f root)
    simp [hbelow, placed]

/-- Joined rows tell the rows of every root. -/
theorem flatten_eq_of_flatMap {f g : Node → Node}
    (h : (roots.flatMap fun root => flatten (f root)) = roots.flatMap fun root => flatten (g root)) :
    ∀ root ∈ roots, flatten (f root) = flatten (g root) := by
  induction roots with
  | nil => simp
  | cons first rest ih =>
    obtain ⟨below, hbelow, hlow⟩ := exists_flatten (f first)
    obtain ⟨below', hbelow', hlow'⟩ := exists_flatten (g first)
    rw [List.flatMap_cons, List.flatMap_cons, hbelow, hbelow', List.cons_append,
      List.cons_append] at h
    obtain ⟨hhead, htail⟩ := List.cons.inj h
    have hsame : below = below' := by
      have hwhile := congrArg (List.takeWhile fun row => decide (0 < row.level)) htail
      rw [List.takeWhile_append_of_pos (by simpa using hlow),
        List.takeWhile_append_of_pos (by simpa using hlow'), takeWhile_flatMap_flatten,
        takeWhile_flatMap_flatten, List.append_nil, List.append_nil] at hwhile
      exact hwhile
    subst hsame
    intro root hroot
    rcases List.mem_cons.mp hroot with rfl | hroot
    · rw [hbelow, hbelow', hhead]
    · exact ih (List.append_cancel_left htail) root hroot

end Node

namespace View

open Node

theorem allRows_keyed (roots : List Node) (report : Report) :
    (ofRoots roots report).allRows = roots.flatMap fun root => flatten (lastKeyed roots root) := by
  refine List.flatMap_congr fun root hroot => ?_
  have hrows : Entries.get? root.key (ofRoots roots report).rows =
      some (flatten (lastKeyed roots root)) := get?_flattenForest hroot
  rw [hrows, Option.getD_some]

/-- A view lists for each root the rows of the last root with its key. These are the own rows of every
root exactly if roots with one key have the same rows. -/
theorem allRows_forest (roots : List Node) (report : Report) :
    (ofRoots roots report).allRows =
        (roots.flatMap fun root => flatten (lastKeyed roots root)) ∧
      ((ofRoots roots report).allRows = roots.flatMap flatten ↔
        ∀ a ∈ roots, ∀ b ∈ roots, a.key = b.key → flatten a = flatten b) := by
  refine ⟨allRows_keyed roots report, ?_⟩
  rw [allRows_keyed]
  constructor
  · intro h a ha b hb hkey
    have hown := flatten_eq_of_flatMap (g := id) h
    calc flatten a = flatten (lastKeyed roots a) := (hown a ha).symm
      _ = flatten (lastKeyed roots b) := by rw [lastKeyed_congr ha hb hkey]
      _ = flatten b := hown b hb
  · intro h
    refine List.flatMap_congr fun root hroot => ?_
    obtain ⟨hmem, hkey⟩ := lastKeyed_mem hroot
    exact h _ hmem root hroot hkey

/-- Two roots with one code, of which the first has a child. -/
def twins : List Node :=
  [{ Node.ofEntries [("code", .text "A")] with
      children := some [Node.ofEntries [("code", .text "A1")]] },
    Node.ofEntries [("code", .text "A")]]

/-- The row of the child is lost: both roots are listed as the second one. -/
theorem allRows_loses_row :
    (ofRoots twins .empty).allRows.map key = ["A", "A"] ∧
    (twins.flatMap flatten).map key = ["A", "A1", "A"] ∧
    (ofRoots twins .empty).allRows ≠ twins.flatMap flatten := by
  have hlisted : (ofRoots twins .empty).allRows.map key = ["A", "A"] := by cbv
  have hown : (twins.flatMap flatten).map key = ["A", "A1", "A"] := by cbv
  refine ⟨hlisted, hown, fun heq => ?_⟩
  rw [heq, hown] at hlisted
  simp at hlisted

end View

end AdminConsole
