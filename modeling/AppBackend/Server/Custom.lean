import AppBackend.Http.Status
import AppBackend.Server.Call

/-!
# Custom interfaces

Any other interface of the application. The server tells the call back to its caller; one name
stands for a call that fails with a status of the caller's choice.
-/

namespace AppBackend.Server.Custom

/-- The interface whose calls fail. -/
def failing : String := "fail"

/-- The status that a failing call asks for; 500 if it asks for none that there is. -/
def requestedStatus (c : Call) : Nat :=
  let asked := (c.param? "status").bind fun t => Numeral.read? 0x10000 t.toList
  (asked.filter Status.isCode).getD 500

def echo (c : Call) (name subpath : String) : Json :=
  .obj (Keyed.ofList
    [("api", .str name), ("subpath", .str subpath), ("method", .str c.method),
      ("query", .obj (Keyed.ofList (c.params.map fun p => (p.1, .str p.2)))),
      ("contentType", .str ((c.header? HeaderName.contentType).getD "")),
      ("userAgent", .str ((c.header? HeaderName.userAgent).getD "")),
      ("body", .str (Utf8.lossy c.body))])

def call (s : Store) (c : Call) (name subpath : String) : Answer := do
  let _ ← c.content
  if name = failing then return (.error (requestedStatus c) "Requested failure", s)
  return (.json 200 (echo c name subpath), s)

end AppBackend.Server.Custom
