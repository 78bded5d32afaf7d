import AppBackend.Client.StoredObject
import AppBackend.Client.User

/-!
# Object buckets

Reading and writing the JSON objects of a bucket.
-/

namespace AppBackend

/-- A bucket of objects or files, and the seconds its operations may take. -/
structure Bucket where
  name : String
  timeout : Int
deriving DecidableEq

def Draft.Step.optionalParam (wanted : Bool) (key value : String) : List Draft.Step :=
  if wanted then [.appendParam key value] else []

namespace ObjectBucket

variable {ε ω : Type}

def path : String := "/objects"

def target (m : Method) (parts : List String) : List Draft.Step :=
  [.target m path, .appendPath (String.join (parts.map ("/" ++ ·)))]

def ofResponse (b : Bucket) (r : Response) : StoredObject := .ofFields b.name r.jsonObject

def etagParam (etag : String) : Draft.Step := .appendParam Reserved.etag etag

def jsonBody (fs : Json.Fields) : List Draft.Step := [Client.jsonHeader, .body (Json.obj fs).bytes]

def newObject (b : Bucket) : StoredObject := { bucket := b.name }

/-- Reads one object; `mark` finds it also when it is only marked as deleted. -/
def get (e : Engine ε ω) (now : Int) (b : Bucket) (id : String) (mark : Bool) (c : Client ε ω) :
    Outcome StoredObject × Client ε ω :=
  if id = "" then (.fatal .invalidArgument, c)
  else if b.name = "" then (.fatal .noBucket, c)
  else
    let steps := target .get [b.name, id] ++ Draft.Step.optionalParam mark deleteMark "1"
    let (o, c) := c.request e now steps .plain b.timeout
    (o.map (ofResponse b), c)

structure Page where
  objects : List StoredObject := []
  /-- All matches, where their number was asked for. -/
  count : Option Int := none

def objectsOf (b : Bucket) (v : Option Json) : List StoredObject :=
  ((v.bind Json.arr?).getD []).filterMap fun item => item.obj?.map (.ofFields b.name)

/-- A whole number of 64 bits with a sign; anything else counts as 0. -/
def countOf (v : Option Json) : Int :=
  match v.bind Json.int? with
  | some n => if n < 0x8000000000000000 then n else 0
  | none => 0

def query (e : Engine ε ω) (now : Int) (b : Bucket) (params : Pairs) (withCount : Bool)
    (c : Client ε ω) : Outcome Page × Client ε ω :=
  if b.name = "" then (.fatal .noBucket, c)
  else
    let params := params ++ if withCount then [("count", "1")] else []
    let (o, c) := c.request e now (target .get [b.name] ++ [.params params]) .plain b.timeout
    (o.map fun r =>
      let fs := r.jsonObject
      ⟨objectsOf b (fs.get? "results"),
        if withCount then some (countOf (fs.get? "count")) else none⟩, c)

/-- Makes an object that has no id yet, and replaces one that has. -/
def save (e : Engine ε ω) (now : Int) (b : Bucket) (object : StoredObject) (withAcl : Bool)
    (c : Client ε ω) : Outcome StoredObject × Client ε ω :=
  if b.name = "" then (.fatal .noBucket, c)
  else
    let steps :=
      if object.id = "" then target .post [b.name] ++ jsonBody (object.creation withAcl)
      else target .put [b.name, object.id] ++ etagParam object.etag :: jsonBody object.replacement
    let (o, c) := c.request e now steps .plain b.timeout
    (o.map (ofResponse b), c)

/-- Changes the members given and no others; reserved members are left out. -/
def update (e : Engine ε ω) (now : Int) (b : Bucket) (id etag : String) (data : Json.Fields)
    (acl : Option Json) (c : Client ε ω) : Outcome StoredObject × Client ε ω :=
  if data.isEmpty then (.fatal .invalidArgument, c)
  else if b.name = "" then (.fatal .noBucket, c)
  else if id = "" then (.fatal .noObjectId, c)
  else
    let body := StoredObject.partialUpdate data acl
    let steps := target .put [b.name, id] ++ etagParam etag :: jsonBody body
    let (o, c) := c.request e now steps .plain b.timeout
    (o.map (ofResponse b), c)

/-- Deletes an object, or only marks it. What comes back of an object that is gone is plain data. -/
def delete (e : Engine ε ω) (now : Int) (b : Bucket) (id etag : String) (mark : Bool)
    (c : Client ε ω) : Outcome StoredObject × Client ε ω :=
  if b.name = "" then (.fatal .noBucket, c)
  else if id = "" then (.fatal .noObjectId, c)
  else
    let steps := target .delete [b.name, id]
      ++ etagParam etag :: Draft.Step.optionalParam mark deleteMark "1"
    let (o, c) := c.request e now steps .plain b.timeout
    (o.map fun r => if mark then ofResponse b r else { newObject b with data := r.jsonObject }, c)

end ObjectBucket
end AppBackend
