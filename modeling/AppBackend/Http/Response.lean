import AppBackend.Http.Request
import AppBackend.Json.Reader

/-!
# Responses

A reply as the transfer left it. Status 0 means that no status line could be read.
-/

namespace AppBackend

structure Response where
  status : Nat := 0
  reason : String := ""
  headers : Pairs := []
  body : Bytes := []
deriving DecidableEq, Inhabited

namespace Response

def header? (r : Response) (name : String) : Option String := r.headers.header? name

/-- The body as text, with U+FFFD where it is none. -/
def bodyText (r : Response) : String := Utf8.lossy r.body

def isSuccess (r : Response) : Bool := 200 ≤ r.status && r.status < 300

def jsonObject (r : Response) : Json.Fields := ((Json.ofBytes? r.body).bind Json.obj?).getD []

end Response
end AppBackend
