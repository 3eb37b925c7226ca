import AdminConsole.Tree.Rows
import AdminConsole.Tree.Folding

/-!
A view: the roots of a resolved forest, the rows of each root under its key, and a report of what
the backend was asked.
-/

namespace AdminConsole

/-- How a forest was resolved: successful queries, repeated queries, and the codes whose children
are missing with the reason. -/
structure Report where
  fetched : Nat
  retried : Nat
  failed : Entries String
  deriving DecidableEq, Repr

namespace Report

def empty : Report := ⟨0, 0, []⟩

def isComplete (r : Report) : Bool := r.failed.isEmpty

/-- The missing codes in increasing order. -/
def sortedFailures (r : Report) : Entries String :=
  r.failed.mergeSort fun a b => a.1 ≤ b.1

end Report

structure View where
  roots : List Node
  rows : Entries (List Node)
  report : Report

namespace View

def ofRoots (roots : List Node) (report : Report) : View :=
  ⟨roots, Node.flattenForest roots, report⟩

/-- The rows of every root in the order of the roots. -/
def allRows (v : View) : List Node :=
  v.roots.flatMap fun root => (Entries.get? root.key v.rows).getD []

def expand (keys : List String) (v : View) : View :=
  { v with rows := v.rows.map fun (key, rows) =>
      (key, if keys.contains key then Node.expandAll rows else rows) }

def expandEvery (v : View) : View := v.expand (Entries.names v.rows)

end View

end AdminConsole
