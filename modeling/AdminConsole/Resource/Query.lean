import AdminConsole.Json.Value
import AdminConsole.Tree.Node

/-!
A query for the children of one code within one tenant. Further parameters are filters: a null one
is dropped, the others are sent as plain text, and none of them stands in for the code or the
tenant.
-/

namespace AdminConsole

structure Query where
  parent : String
  tenant : String
  params : Entries Json

namespace Query

def filters (params : Entries Json) : Entries String :=
  params.filterMap fun (name, value) => if value.isNull then none else some (name, value.plain)

def toParams (q : Query) : Entries String :=
  Entries.put "tenantCode" q.tenant (Entries.put "pcode" q.parent (filters q.params))

end Query

end AdminConsole
