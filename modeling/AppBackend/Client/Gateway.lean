import AppBackend.Client.ObjectBucket

/-!
# Gateways

A custom interface of the service, called with headers, parameters and a body of the caller's. A
gateway keeps only pairs with both halves, and keeps the content type apart from the headers, so
that a request has one exactly when it has a body.
-/

namespace AppBackend

structure Gateway where
  name : String
  method : Method
  /-- What follows the name in the path, as it stands. -/
  subpath : String
  timeout : Int
  headers : Pairs := []
  params : Pairs := []
  contentType : String := ""
deriving DecidableEq

namespace Gateway

variable {ε ω : Type}

def path : String := "/api"

def isContentType (name : String) : Bool := Text.sameName name HeaderName.contentType

/-- A header with an empty half or named like the content type is not taken. -/
def addHeader (g : Gateway) (name value : String) : Gateway :=
  if Draft.isFull (name, value) && !isContentType name then
    { g with headers := g.headers ++ [(name, value)] }
  else g

def addParam (g : Gateway) (key value : String) : Gateway :=
  if Draft.isFull (key, value) then { g with params := g.params ++ [(key, value)] } else g

/-- The pairs without those of a name, and how many went. -/
def without (ps : Pairs) (name : String) : Pairs × Nat :=
  let kept := ps.filter fun p => p.1 != name
  (kept, ps.length - kept.length)

def removeHeader (g : Gateway) (name : String) : Gateway × Nat :=
  let (headers, n) := without g.headers name
  ({ g with headers }, n)

def removeParam (g : Gateway) (key : String) : Gateway × Nat :=
  let (params, n) := without g.params key
  ({ g with params }, n)

def clearHeaders (g : Gateway) : Gateway := { g with headers := [] }

def clearParams (g : Gateway) : Gateway := { g with params := [] }

def setContentType (g : Gateway) (contentType : String) : Gateway := { g with contentType }

def setTimeout (g : Gateway) (timeout : Int) : Gateway := { g with timeout }

/-- The body that is sent: none with a method that carries none. -/
def effectiveBody (g : Gateway) (body : Bytes) : Bytes := if g.method.sendsBody then body else []

def steps (g : Gateway) (body : Bytes) : List Draft.Step :=
  [.target g.method path, .appendPath ("/" ++ g.name ++ g.subpath), .headers g.headers,
    .params g.params]
  ++ if body.isEmpty then [] else [.appendHeader HeaderName.contentType g.contentType, .body body]

/-- Calls the interface. A body needs a content type. -/
def call (e : Engine ε ω) (now : Int) (g : Gateway) (body : Bytes) (c : Client ε ω) :
    Outcome Response × Client ε ω :=
  let body := g.effectiveBody body
  if g.name = "" then (.fatal .noApiName, c)
  else if !body.isEmpty && g.contentType == "" then (.fatal .noContentType, c)
  else c.request e now (g.steps body) .plain g.timeout

end Gateway
end AppBackend
