import AppBackend.Http.Names
import AppBackend.Http.Request
import AppBackend.Json.Writer

/-!
# Replies and refusals

What the server answers: a status, headers with names in lower case, and a body. A refusal is the
cause of an answer that changes nothing; each has its status and its body.
-/

namespace AppBackend.Server

structure Reply where
  status : Nat
  headers : Pairs := []
  body : Bytes := []
deriving DecidableEq, Inhabited

namespace Reply

def contentType : String := "content-type"

def fileLength : String := "x-content-length"

def allow : String := "allow"

def json (status : Nat) (v : Json) : Reply := ⟨status, [(contentType, jsonMediaType)], v.bytes⟩

def plain (status : Nat) (text : String) : Reply :=
  ⟨status, [(contentType, "text/plain; charset=utf-8")], Utf8.ofString text⟩

/-- An object with the message as its only member. -/
def error (status : Nat) (message : String) : Reply := json status (.obj [("error", .str message)])

def empty (status : Nat) : Reply := ⟨status, [], []⟩

def withHeader (r : Reply) (name value : String) : Reply :=
  { r with headers := r.headers ++ [(name, value)] }

def withoutBody (r : Reply) : Reply := { r with body := [] }

end Reply

inductive Refusal where
  | wrongApplication
  /-- A session is named that is not live. -/
  | deadSession
  | noSession
  | wrongAccount
  | unreadablePath (part : String)
  /-- A JSON body under another content type. -/
  | notJson
  | tooLong
  | malformedBody
  | unfitBody
  | notAnObject
  | invalidReplacement
  | invalidCondition
  | notFound
  | etagMismatch
  | noContentType
  | invalidAcl
  | duplicateName
deriving DecidableEq

namespace Refusal

def reply : Refusal → Reply
  | wrongApplication => .error 401 "Invalid application"
  | deadSession => .error 401 "Invalid session token"
  | noSession => .error 401 "No session token"
  | wrongAccount => .error 401 "Unauthorized"
  | unreadablePath part => .plain 400 ("Invalid URL: Invalid UTF-8 in `" ++ part ++ "`")
  | notJson => .plain 415 "Expected request with `Content-Type: application/json`"
  | tooLong => .plain 413 "Failed to buffer the request body: length limit exceeded"
  | malformedBody => .plain 400 "Failed to parse the request body as JSON"
  | unfitBody => .plain 422 "Failed to deserialize the JSON body into the target type"
  | notAnObject => .error 400 "Body must be an object"
  | invalidReplacement => .error 400 "Invalid $full_update"
  | invalidCondition => .error 400 "Invalid where"
  | notFound => .error 404 "Not found"
  | etagMismatch => .error 409 "ETag mismatch"
  | noContentType => .error 400 "No Content-Type"
  | invalidAcl => .error 400 "Invalid X-ACL"
  | duplicateName => .error 409 "Duplicate file name"

/-- A refusal always reads as an error. -/
theorem le_status (r : Refusal) : 400 ≤ r.reply.status := by
  cases r <;> simp [reply, Reply.error, Reply.json, Reply.plain]

end Refusal
end AppBackend.Server
