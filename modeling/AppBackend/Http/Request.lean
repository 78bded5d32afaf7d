import AppBackend.Text.Blank
import AppBackend.Text.Cut

/-!
# Requests

A request as it is handed to an engine: target, method, rendered header lines, body, proxy and
transport options. Header lines read back as pairs at their first colon. Main statement:
`headerPair?_headerLine`, which says when a rendered line gives back what it was rendered from.
-/

namespace AppBackend

inductive Method where
  | get
  | post
  | put
  | delete
deriving DecidableEq

namespace Method

def name : Method → String
  | .get => "GET"
  | .post => "POST"
  | .put => "PUT"
  | .delete => "DELETE"

def ofName? (s : String) : Option Method := [get, post, put, delete].find? fun m => m.name == s

def sendsBody : Method → Bool
  | .post | .put => true
  | .get | .delete => false

end Method

/-- How the peer is authenticated: paths of PEM files, a folder of PEM files in `caPath`. -/
structure TransportOptions where
  clientCert : Option String := none
  clientKey : Option String := none
  caInfo : Option String := none
  caPath : Option String := none
  verifyPeer : Bool := true
deriving DecidableEq, Inhabited

/-- Names and values of headers in order; a name may come more than once. -/
abbrev Pairs := List (String × String)

namespace Pairs

/-- The first value under a name, whatever the case of its letters. -/
def header? (ps : Pairs) (name : String) : Option String :=
  (ps.find? fun p => Text.sameName p.1 name).map (·.2)

end Pairs

structure Request where
  url : String := ""
  method : Method := .get
  headers : List String := []
  body : Bytes := []
  /-- An empty text means no proxy. -/
  proxy : String := ""
  options : TransportOptions := {}
deriving DecidableEq, Inhabited

namespace Request

/-! ### Header lines -/

def headerLine (name value : String) : String := name ++ ": " ++ value

/-- The name before the first colon and the value after it, less leading blanks. -/
def headerPair? (line : String) : Option (String × String) :=
  (Text.cut? ':' line.toList).map fun p =>
    (String.ofList p.1, String.ofList (Text.trimStart Text.isBlank p.2))

/-- Lines without a colon give no pair. -/
def headerPairs (r : Request) : Pairs := r.headers.filterMap headerPair?

def header? (r : Request) (name : String) : Option String := r.headerPairs.header? name

/-- A line reads back as its name and value when the name has no colon and the value does not begin
with a blank. -/
theorem headerPair?_headerLine {name value : String} (hn : ':' ∉ name.toList)
    (hv : ∀ c, value.toList.head? = some c → Text.isBlank c = false) :
    headerPair? (headerLine name value) = some (name, value) := by
  have e : (headerLine name value).toList = name.toList ++ ':' :: (' ' :: value.toList) := by
    simp [headerLine, String.toList_append]
  have hb : Text.isBlank ' ' = true := by decide
  have ht : Text.trimStart Text.isBlank (' ' :: value.toList) = value.toList := by
    have := Text.trimStart_eq_self hv
    simpa [Text.trimStart, hb] using this
  simp [headerPair?, e, Text.cut?_append _ hn, ht, String.ofList_toList]

theorem filterMap_headerPair? {ps : Pairs} (h : ∀ p ∈ ps, ':' ∉ p.1.toList ∧
    ∀ c, p.2.toList.head? = some c → Text.isBlank c = false) :
    (ps.map fun p => headerLine p.1 p.2).filterMap headerPair? = ps := by
  induction ps with
  | nil => rfl
  | cons p ps ih =>
    obtain ⟨hname, hvalue⟩ := h p (List.mem_cons_self ..)
    rw [List.map_cons, List.filterMap_cons_some (headerPair?_headerLine hname hvalue),
      ih fun q hq => h q (List.mem_cons_of_mem _ hq)]

end Request
end AppBackend
