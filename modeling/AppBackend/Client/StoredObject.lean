import AppBackend.Json.Basic
import AppBackend.Time.Timestamp

/-!
# Stored objects

One object of a bucket: the members that the server keeps for itself beside the caller's data.
Reading an object takes the former out; what is sent back is built from the latter. Main statement:
`get?_ofFields_data`, the data hold every member of the object but the reserved ones.
-/

namespace AppBackend

/-- The names of the members that the server gives a meaning. -/
def Reserved.id : String := "_id"

def Reserved.createdAt : String := "createdAt"

def Reserved.updatedAt : String := "updatedAt"

def Reserved.acl : String := "ACL"

def Reserved.etag : String := "etag"

def Reserved.deleted : String := "_deleted"

def Reserved.keys : List String :=
  [Reserved.id, Reserved.createdAt, Reserved.updatedAt, Reserved.acl, Reserved.etag,
    Reserved.deleted]

def Reserved.strip (fs : Json.Fields) : Json.Fields := Keyed.eraseAll fs Reserved.keys

/-- The parameter that brings in, or makes, entries that are only marked as deleted. -/
def deleteMark : String := "deleteMark"

/-- The member whose value replaces all data of an object. -/
def fullUpdateKey : String := "$full_update"

structure StoredObject where
  bucket : String := ""
  /-- Empty until the object has been saved. -/
  id : String := ""
  etag : String := ""
  createdAt : String := ""
  updatedAt : String := ""
  acl : Option Json := none
  deleted : Bool := false
  data : Json.Fields := []
deriving Inhabited

namespace StoredObject

/-- The object that members describe. A reserved member of the wrong kind reads as absent. -/
def ofFields (bucket : String) (fs : Json.Fields) : StoredObject where
  bucket := bucket
  id := fs.text Reserved.id
  etag := fs.text Reserved.etag
  createdAt := fs.text Reserved.createdAt
  updatedAt := fs.text Reserved.updatedAt
  acl := (fs.get? Reserved.acl).filter fun v => v.obj?.isSome
  deleted := fs.flag Reserved.deleted
  data := Reserved.strip fs

def get? (o : StoredObject) (key : String) : Option Json := o.data.get? key

def insert (o : StoredObject) (key : String) (v : Json) : StoredObject :=
  { o with data := o.data.insert key v }

def createdTime? (o : StoredObject) : Option Timestamp := Timestamp.ofText? o.createdAt

def updatedTime? (o : StoredObject) : Option Timestamp := Timestamp.ofText? o.updatedAt

/-! ### What is sent -/

def creation (o : StoredObject) (withAcl : Bool) : Json.Fields :=
  let data := Reserved.strip o.data
  match withAcl, o.acl with
  | true, some acl => data.insert Reserved.acl acl
  | _, _ => data

def replacement (o : StoredObject) : Json.Fields :=
  let data := Reserved.strip o.data
  let data := match o.acl with
    | some acl => data.insert Reserved.acl acl
    | none => data
  let data : Json.Fields :=
    if o.createdAt = "" then data else data.insert Reserved.createdAt (.str o.createdAt)
  [(fullUpdateKey, .obj data)]

def partialUpdate (data : Json.Fields) (acl : Option Json) : Json.Fields :=
  match acl with
  | some acl => (Reserved.strip data).insert Reserved.acl acl
  | none => Reserved.strip data

/-! ### Stripping -/

/-- The data of an object are its members but the reserved ones. -/
theorem get?_ofFields_data (bucket : String) (fs : Json.Fields) (key : String) :
    (ofFields bucket fs).data.get? key = if key ∈ Reserved.keys then none else fs.get? key :=
  Keyed.get?_eraseAll fs Reserved.keys key

end StoredObject
end AppBackend
