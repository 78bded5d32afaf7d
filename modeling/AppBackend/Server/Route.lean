import AppBackend.Server.Custom
import AppBackend.Server.Files
import AppBackend.Server.Objects
import AppBackend.Server.Users

/-!
# Routes

Which paths the server knows, which methods each of them takes, and what a call asks for. A path is
taken apart before its parts are percent-decoded, and no part may be empty. Main statement:
`isSome_action?`, a route has an action for the methods that it takes and for no others.
-/

namespace AppBackend.Server

/-- The tenant whose data the server holds. -/
def tenant : String := "tenant"

inductive Route where
  | login
  | bucketObjects (bucket : String)
  | object (bucket id : String)
  | bucketFiles (bucket : String)
  | file (bucket name : String)
  /-- With what follows the name, less its slash. -/
  | custom (name : String) (rest : Option String)
deriving DecidableEq

namespace Route

/-! ### Paths -/

def ofParts? (parts : List (List Char)) : Option Route :=
  match parts with
  | [kind] => if kind = "login".toList then some .login else none
  | [kind, a] =>
    if a.isEmpty then none
    else if kind = "objects".toList then some (.bucketObjects (.ofList a))
    else if kind = "files".toList then some (.bucketFiles (.ofList a))
    else if kind = "api".toList then some (.custom (.ofList a) none)
    else none
  | kind :: a :: rest =>
    let b := Text.joined '/' rest
    if a.isEmpty || b.isEmpty then none
    else if kind = "api".toList then some (.custom (.ofList a) (some (.ofList b)))
    else if rest.length ≠ 1 then none
    else if kind = "objects".toList then some (.object (.ofList a) (.ofList b))
    else if kind = "files".toList then some (.file (.ofList a) (.ofList b))
    else none
  | [] => none

def ofPath? (path : String) : Option Route :=
  match Text.split '/' path.toList with
  | [] :: version :: owner :: parts =>
    if version = ['1'] && owner = tenant.toList then ofParts? parts else none
  | _ => none

def decodePart (name part : String) : Except Refusal String :=
  match Utf8.text? (Percent.decode (Utf8.ofString part)) with
  | some s => .ok s
  | none => .error (.unreadablePath name)

def decoded : Route → Except Refusal Route
  | login => .ok login
  | bucketObjects b => (decodePart "bucket" b).map bucketObjects
  | object b i => do return object (← decodePart "bucket" b) (← decodePart "id" i)
  | bucketFiles b => (decodePart "bucket" b).map bucketFiles
  | file b n => do return file (← decodePart "bucket" b) (← decodePart "name" n)
  | custom n none => (decodePart "name" n).map fun n => custom n none
  | custom n (some r) => do return custom (← decodePart "name" n) (some (← decodePart "rest" r))

/-! ### Methods -/

/-- The methods that a route takes; a route that takes all has no list. -/
def methods? : Route → Option (List String)
  | login => some ["POST", "DELETE"]
  | bucketObjects _ => some ["GET", "HEAD", "POST"]
  | object _ _ => some ["GET", "HEAD", "PUT", "DELETE"]
  | bucketFiles _ => some ["GET", "HEAD"]
  | file _ _ => some ["GET", "HEAD", "POST", "PUT", "DELETE"]
  | custom _ _ => none

def takes (r : Route) (method : String) : Bool :=
  match r.methods? with
  | some methods => methods.contains method
  | none => true

end Route

/-! ### Actions -/

/-- What a call asks for. -/
inductive Action where
  | logIn
  | logOut
  | findObjects (bucket : String)
  | createObject (bucket : String)
  | readObject (bucket id : String)
  | updateObject (bucket id : String)
  | deleteObject (bucket id : String)
  | listFiles (bucket : String)
  | readFile (bucket name : String)
  | createFile (bucket name : String)
  | updateFile (bucket name : String)
  | deleteFile (bucket name : String)
  | callCustom (name subpath : String)
deriving DecidableEq

namespace Route

def action? : Route → String → Option Action
  | login, "POST" => some .logIn
  | login, "DELETE" => some .logOut
  | bucketObjects b, "GET" => some (.findObjects b)
  | bucketObjects b, "HEAD" => some (.findObjects b)
  | bucketObjects b, "POST" => some (.createObject b)
  | object b i, "GET" => some (.readObject b i)
  | object b i, "HEAD" => some (.readObject b i)
  | object b i, "PUT" => some (.updateObject b i)
  | object b i, "DELETE" => some (.deleteObject b i)
  | bucketFiles b, "GET" => some (.listFiles b)
  | bucketFiles b, "HEAD" => some (.listFiles b)
  | file b n, "GET" => some (.readFile b n)
  | file b n, "HEAD" => some (.readFile b n)
  | file b n, "POST" => some (.createFile b n)
  | file b n, "PUT" => some (.updateFile b n)
  | file b n, "DELETE" => some (.deleteFile b n)
  | custom n rest, _ => some (.callCustom n ((rest.map ("/" ++ ·)).getD ""))
  | _, _ => none

theorem isSome_action? (r : Route) (method : String) :
    (r.action? method).isSome = r.takes method := by
  fun_cases action? r method
  case case18 =>
    cases r <;> simp_all [takes, methods?]
  all_goals simp [takes, methods?]

end Route

namespace Action

def run (s : Store) (f : Fresh) (c : Call) : Action → Answer
  | logIn => Server.logIn s f c
  | logOut => Server.logOut s c
  | findObjects b => Objects.find s c b
  | createObject b => Objects.create s f c b
  | readObject b i => Objects.read s c b i
  | updateObject b i => Objects.update s f c b i
  | deleteObject b i => Objects.delete s f c b i
  | listFiles b => Files.list s c b
  | readFile b n => Files.read s b n
  | createFile b n => Files.create s f c b n
  | updateFile b n => Files.update s f c b n
  | deleteFile b n => Files.delete s f c b n
  | callCustom n p => Custom.call s c n p

end Action
end AppBackend.Server
