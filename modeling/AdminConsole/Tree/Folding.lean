import AdminConsole.Tree.Node

/-!
Folding rows. Only the flags of rows change: folding a row also folds the rows below it, which are
found by key, so that unfolding it again shows its children folded. A row is visible when it has
no parent or its parent is visible and unfolded. Of several rows with one key the first counts.
-/

namespace AdminConsole.Node

/-- The first row with a key. -/
def rowOf? (rows : List Node) (key : String) : Option Node := rows.find? fun row => row.key = key

def parentRow? (rows : List Node) (n : Node) : Option Node := n.parentRef.bind (rowOf? rows)

/-- The rows keyed like the children of a node, without those that were reached. Each key is taken
once. -/
def freshRows (rows : List Node) (reached : List String) : List Node → List Node
  | [] => []
  | child :: rest =>
    match rowOf? rows child.key with
    | none => freshRows rows reached rest
    | some row =>
      if row.key ∈ reached then freshRows rows reached rest
      else row :: freshRows rows (row.key :: reached) rest

/-- The keys that are reached from pending nodes in at most `fuel` steps of going from a node to
the rows of its children. -/
def reach (rows : List Node) : Nat → List String → List Node → List String
  | 0, reached, _ => reached
  | _ + 1, reached, [] => reached
  | fuel + 1, reached, n :: pending =>
    let fresh := freshRows rows reached n.childList
    reach rows fuel ((fresh.map key).reverse ++ reached) (fresh.reverse ++ pending)

def keysBelow (rows : List Node) (n : Node) : List String :=
  reach rows (rows.length + 1) [n.key] [n]

/-- Sets the flag of the first row of each of the keys. -/
def setFlags (keys : List String) (expanded : Bool) : List Node → List Node
  | [] => []
  | row :: rest =>
    if row.key ∈ keys then
      { row with expanded } :: setFlags (keys.filter (· ≠ row.key)) expanded rest
    else row :: setFlags keys expanded rest

/-- Folds or unfolds a node: the rows afterwards, and the node with its new flag. -/
def toggle (rows : List Node) (n : Node) (expanded : Bool) : List Node × Node :=
  let target := (rowOf? rows n.key).getD n
  let keys := if expanded then [target.key] else keysBelow rows target
  (setFlags keys expanded rows, { n with expanded })

def isShown (rows : List Node) (shown : List String) (row : Node) : Bool :=
  match row.parentRef with
  | none => true
  | some _ =>
    match parentRow? rows row with
    | none => false
    | some parent => parent.expanded && shown.contains parent.key

/-- The visible ones among the rows still to come, given the keys shown so far. -/
def visibleFrom (rows : List Node) (shown : List String) : List Node → List Node
  | [] => []
  | row :: rest =>
    if isShown rows shown row then row :: visibleFrom rows (row.key :: shown) rest
    else visibleFrom rows shown rest

def visible (rows : List Node) : List Node := visibleFrom rows [] rows

def opened (row : Node) : Node := if row.hasChildren then { row with expanded := true } else row

def expandAll (rows : List Node) : List Node := rows.map opened

end AdminConsole.Node
