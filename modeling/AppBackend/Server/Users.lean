import AppBackend.Server.Call

/-!
# Logging in and out

The server knows one account. A login gives a token that is live for a fixed time; a logout ends the
session that the call names.
-/

namespace AppBackend.Server

/-- The account that can log in. -/
def username : String := "alice"

def email : String := "alice@example.com"

def password : String := "secret"

def userId : String := "user-1"

/-- Seconds from a login to the end of its session. -/
def sessionLifetime : Int := 3600

/-- The account as it is told to clients. -/
def accountFields : Json.Fields :=
  let since := "2017-03-07T08:49:58.000Z"
  Keyed.ofList
    [("_id", .str userId), ("username", .str username), ("email", .str email),
      ("options", .obj [("lang", .str "en")]), ("groups", .arr [.str "staff"]),
      ("createdAt", .str since), ("updatedAt", .str since)]

/-- A login names the account by its name or its email. -/
def loginSchema : Json.Schema where
  members := [⟨"username", .textOrNull⟩, ⟨"email", .textOrNull⟩, ⟨"password", .text⟩]
  required := ["password"]
  positional := .complete
  unknown := fun _ => .skim

def isAccount (login : Json.Fields) : Bool :=
  let given (key : String) := (login.get? key).bind Json.str?
  (given "username" == some username || given "email" == some email)
    && given "password" == some password

def logIn (s : Store) (f : Fresh) (c : Call) : Answer := do
  let login ← c.record loginSchema
  if !isAccount login then throw .wrongAccount
  let expiry := f.now.second + sessionLifetime
  let body := (accountFields.insert "sessionToken" (.str f.first)).insert "expire" (.int expiry)
  return (.json 200 (.obj body), s.addSession f.first expiry)

def logOut (s : Store) (c : Call) : Answer :=
  match c.header? HeaderName.sessionToken with
  | none => .error .noSession
  | some token => .ok (.json 200 (.obj accountFields), s.removeSession token)

end AppBackend.Server
