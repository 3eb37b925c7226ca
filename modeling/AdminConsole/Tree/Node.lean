import AdminConsole.Json.Value

/-!
Nodes of a resource tree. A node holds one record of the backend, the children attached to it and
its state in a listing. The record keeps the fields it does not know in the order they came;
fields of the listing are never read from a record.
-/

namespace AdminConsole

structure Record where
  code : Option String
  parentCode : Option String
  name : Json
  kind : Json
  sortOrder : Json
  tenantCode : Json
  path : Json
  authority : Json
  icons : Json
  id : Json
  extra : Entries Json
  deriving Repr

/-- A node; without children it is a leaf. -/
structure Node where
  record : Record
  level : Int
  expanded : Bool
  parentRef : Option String
  children : Option (List Node)
  deriving Repr

namespace Record

/-- The code of the record that stands above all others, and the key of records without a code. -/
def rootCode : String := "0"

/-- The names of the known fields, in the order they are written. -/
def wireNames : List String :=
  ["id", "code", "pcode", "tenantCode", "name", "type", "sort", "path", "authority", "icons"]

def viewNames : List String := ["children", "level", "expand", "expanded", "parent"]

def orElse (value default : Json) : Json := if value.isNull then default else value

def codeOf : Json → Option String
  | .null => none
  | value => some value.plain

def ofEntries (entries : Entries Json) : Record where
  code := codeOf (Json.field "code" entries)
  parentCode := codeOf (Json.field "pcode" entries)
  name := orElse (Json.field "name" entries) (.text "")
  kind := orElse (Json.field "type" entries) (.text "")
  sortOrder := orElse (Json.field "sort" entries) (.number (.whole 0))
  tenantCode := Json.field "tenantCode" entries
  path := Json.field "path" entries
  authority := Json.field "authority" entries
  icons := Json.field "icons" entries
  id := Json.field "id" entries
  extra := entries.filter fun entry => !wireNames.contains entry.1 && !viewNames.contains entry.1

def codeJson : Option String → Json
  | none => .null
  | some code => .text code

/-- The known fields that are not null, in their order. -/
def wire (r : Record) : Entries Json :=
  (wireNames.zip
    [r.id, codeJson r.code, codeJson r.parentCode, r.tenantCode, r.name, r.kind, r.sortOrder,
      r.path, r.authority, r.icons]).filter fun entry => !entry.2.isNull

def key (r : Record) : String :=
  match r.code with
  | none => rootCode
  | some code => if code = "" then rootCode else code

def isRoot (r : Record) : Bool :=
  match r.parentCode with
  | none => true
  | some code => code = "" || code = rootCode

end Record

namespace Node

def ofRecord (record : Record) : Node := ⟨record, 0, false, none, none⟩

def ofEntries (entries : Entries Json) : Node := ofRecord (.ofEntries entries)

def key (n : Node) : String := n.record.key

/-- The children, none for a leaf. -/
def childList (n : Node) : List Node := n.children.getD []

def hasChildren (n : Node) : Bool := !n.childList.isEmpty

def ownEntries (n : Node) : Entries Json :=
  n.record.extra ++ n.record.wire ++
    [("level", .number (.whole n.level)), ("expand", .bool n.expanded)] ++
    match n.parentRef with
    | none => []
    | some code => [("parent", .text code)]

mutual

def toJson : Node → Json
  | ⟨record, level, expanded, parentRef, none⟩ =>
    .object (ownEntries ⟨record, level, expanded, parentRef, none⟩)
  | ⟨record, level, expanded, parentRef, some children⟩ =>
    .object (ownEntries ⟨record, level, expanded, parentRef, none⟩ ++
      match listJson children with
      | [] => []
      | items => [("children", .list items)])

def listJson : List Node → List Json
  | [] => []
  | n :: rest => toJson n :: listJson rest

end

def toRowJson (n : Node) : Json := .object n.ownEntries

mutual

def size : Node → Nat
  | ⟨_, _, _, _, none⟩ => 1
  | ⟨_, _, _, _, some children⟩ => 1 + sizes children

def sizes : List Node → Nat
  | [] => 0
  | n :: rest => size n + sizes rest

end

theorem sizes_append (a b : List Node) : sizes (a ++ b) = sizes a + sizes b := by
  induction a with
  | nil => simp [sizes]
  | cons n rest ih => simp [sizes, ih, Nat.add_assoc]

theorem size_eq (n : Node) : n.size = 1 + sizes n.childList := by
  obtain ⟨_, _, _, _, children⟩ := n
  cases children <;> simp [size, childList, sizes]

end Node

end AdminConsole
