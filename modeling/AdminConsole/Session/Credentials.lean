import AdminConsole.Json.Value

/-!
Credentials: a user name and a password. The password never shows in a display text.
-/

namespace AdminConsole

structure Credentials where
  username : String
  password : String
  deriving DecidableEq

inductive CredentialsError where
  | notAnObject
  | incomplete
  deriving DecidableEq, Repr

def CredentialsError.message : CredentialsError → String
  | .notAnObject => "credentials must be an object"
  | .incomplete => "credentials record incomplete"

namespace Credentials

def toJson (c : Credentials) : Json :=
  .object [("username", .text c.username), ("password", .text c.password)]

def ofJson : Json → Except CredentialsError Credentials
  | .object entries =>
    match Json.field "username" entries, Json.field "password" entries with
    | .text username, .text password => .ok ⟨username, password⟩
    | _, _ => .error .incomplete
  | _ => .error .notAnObject

def display (c : Credentials) : String :=
  "Credentials(username=" ++ Text.quoted c.username ++ ", password='***')"

end Credentials

end AdminConsole
