import AppBackend.Http.Media
import AppBackend.Json.Record
import AppBackend.Server.Refusal
import AppBackend.Server.Store
import AppBackend.Text.Form
import AppBackend.Time.Timestamp

/-!
# Calls

A request as the server gets it, and the parts of it that handlers look at. A header counts by its
first value, and only if that is printable ASCII; of repeated parameters the last counts.
-/

namespace AppBackend.Server

structure Call where
  method : String
  /-- Before percent-decoding. -/
  path : String
  query : String := ""
  headers : Pairs := []
  body : Bytes := []
deriving DecidableEq, Inhabited

/-- What a call finds new: the time, and two names that were never given before. -/
structure Fresh where
  now : Timestamp
  first : String
  second : String

/-- A handler's answer, and the store after it; a refusal leaves the store as it was. -/
abbrev Answer := Except Refusal (Reply × Store)

namespace Call

/-! ### Headers -/

/-- Printable ASCII and tabs. -/
def isReadable (value : String) : Bool :=
  value.toList.all fun c => (32 ≤ c.toNat && c.toNat < 127) || c == '\t'

/-- A header whose first value can be read as text. -/
def header? (c : Call) (name : String) : Option String := (c.headers.header? name).filter isReadable

/-! ### Parameters -/

def params (c : Call) : Pairs := Form.pairs c.query.toList

def param? (c : Call) (key : String) : Option String := Form.get? c.params key

def flag (c : Call) (key : String) : Bool := c.param? key == some "1" || c.param? key == some "true"

/-- A parameter that is given must be the text that a member holds now. -/
def checkEtag (c : Call) (key : String) (current : Json.Fields) : Except Refusal Unit :=
  match c.param? key with
  | none => .ok ()
  | some expected =>
    if (current.get? key).bind Json.str? = some expected then .ok () else .error .etagMismatch

/-! ### Bodies -/

/-- Octets of the longest body that is taken. -/
def maxBody : Nat := 2097152

def content (c : Call) : Except Refusal Bytes :=
  if maxBody < c.body.length then .error .tooLong else .ok c.body

/-- The characters of a body that says it is JSON. -/
def jsonUnits (c : Call) : Except Refusal (List (Option Char)) := do
  if !((c.header? HeaderName.contentType).map Media.isJson).getD false then throw .notJson
  return Utf8.decode (← c.content)

def json (c : Call) : Except Refusal Json := do
  match Json.ofUnits? (← c.jsonUnits) with
  | some v => return v
  | none => throw .malformedBody

def object (c : Call) : Except Refusal Json.Fields := do
  match ← c.json with
  | .obj fs => return fs
  | _ => throw .notAnObject

def record (c : Call) (schema : Json.Schema) : Except Refusal Json.Fields := do
  match schema.ofUnits (← c.jsonUnits) with
  | .ok fs => return fs
  | .error .malformed => throw .malformedBody
  | .error .mismatch => throw .unfitBody

end Call
end AppBackend.Server
