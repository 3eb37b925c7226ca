import AdminConsole.Fault
import AdminConsole.Tree.Node

/-!
Records of an answer. An answer is a list of records or a page whose content is one; a source
inside the process may answer with nodes as well.
-/

namespace AdminConsole

inductive Item where
  | node (n : Node)
  | value (v : Json)

inductive Records where
  | value (v : Json)
  | items (items : List Item)

namespace Records

def refuse {α : Type} (parent : Option String) (cause : FetchCause) : Except FetchError α :=
  .error ⟨.permanent, cause, parent, none⟩

def nodeOf (parent : Option String) : Item → Except FetchError Node
  | .node n => .ok n
  | .value (.object entries) => .ok (.ofEntries entries)
  | .value v => refuse parent (.notARecord v)

/-- The nodes of items in their order; the first item that is no record refuses all. -/
def nodesOfItems (parent : Option String) : List Item → Except FetchError (List Node)
  | [] => .ok []
  | item :: rest => do
    let n ← nodeOf parent item
    let ns ← nodesOfItems parent rest
    return n :: ns

def unpaged : Json → Json
  | .object entries =>
    match Entries.get? "content" entries with
    | some content => content
    | none => .object entries
  | v => v

def nodes (parent : Option String) : Records → Except FetchError (List Node)
  | .items given => nodesOfItems parent given
  | .value v =>
    match unpaged v with
    | .list given => nodesOfItems parent (given.map .value)
    | v => refuse parent (.notAList v.kindName)

end Records

end AdminConsole
