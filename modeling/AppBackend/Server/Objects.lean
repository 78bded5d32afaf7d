import AppBackend.Client.StoredObject
import AppBackend.Server.Call

/-!
# Objects on the server

Finding, making, reading, changing and deleting the objects of a bucket. A change gives the object a
new etag; a call may ask for the etag that it expects. An object marked as deleted is passed over
unless the call asks for it.
-/

namespace AppBackend.Server

def isDeleted (fs : Json.Fields) : Bool :=
  match fs.get? Reserved.deleted with
  | some (.bool b) => b
  | _ => false

def isVisible (deletedToo : Bool) (fs : Json.Fields) : Bool := deletedToo || !isDeleted fs

namespace Objects

/-! ### Finding -/

/-- Whether an object has all the members of the conditions, with equal values. -/
def meets (conditions fs : Json.Fields) : Bool :=
  conditions.all fun p =>
    match fs.get? p.1 with
    | some v => v.same p.2
    | none => false

/-- The conditions that a call sets; none if it sets no conditions. -/
def conditions (c : Call) : Except Refusal Json.Fields :=
  match c.param? "where" with
  | none => .ok []
  | some text =>
    match Json.ofString? text with
    | some (.obj fs) => .ok fs
    | _ => .error .invalidCondition

def limit? (c : Call) : Option Nat :=
  (c.param? "limit").bind fun t => Numeral.read? 0x10000000000000000 t.toList

/-- The objects that can be seen and meet the conditions. -/
def matching (objects : Keyed Json.Fields) (deletedToo : Bool) (conditions : Json.Fields) :
    List Json.Fields :=
  objects.values.filter fun fs => isVisible deletedToo fs && meets conditions fs

def upTo (limit : Option Nat) (items : List α) : List α :=
  match limit with
  | some n => items.take n
  | none => items

theorem upTo_isPrefix (limit : Option Nat) (items : List α) : upTo limit items <+: items := by
  unfold upTo
  split
  · exact List.take_prefix _ _
  · exact List.prefix_rfl

/-- Finds objects. The count, where it is asked for, is taken before the limit. -/
def find (s : Store) (c : Call) (bucket : String) : Answer := do
  let found := matching (s.objectsIn bucket) (c.flag deleteMark) (← conditions c)
  let results : Json := .arr ((upTo (limit? c) found).map .obj)
  let count : Json.Fields := if c.flag "count" then [("count", .int found.length)] else []
  return (.json 200 (.obj (count ++ [("results", results)])), s)

/-! ### Single objects -/

/-- The members that every change renews. -/
def renew (fs : Json.Fields) (etag : String) (now : Timestamp) : Json.Fields :=
  Keyed.insert (Keyed.insert fs Reserved.etag (.str etag)) Reserved.updatedAt (.str now.text)

def create (s : Store) (f : Fresh) (c : Call) (bucket : String) : Answer := do
  let given ← c.object
  let fs := renew ((given.insert Reserved.id (.str f.first)).insert Reserved.createdAt
    (.str f.now.text)) f.second f.now
  return (.json 201 (.obj fs), s.putObject bucket f.first fs)

def lookUp (s : Store) (bucket id : String) : Except Refusal Json.Fields :=
  match s.object? bucket id with
  | some fs => .ok fs
  | none => .error .notFound

def read (s : Store) (c : Call) (bucket id : String) : Answer := do
  let fs ← lookUp s bucket id
  if isVisible (c.flag deleteMark) fs then return (.json 200 (.obj fs), s) else throw .notFound

/-- The members that stay when all data of an object are replaced. -/
def kept : List String := [Reserved.id, Reserved.createdAt]

/-- An object with new data in place of all of its own. -/
def replaced (fs data : Json.Fields) : Json.Fields :=
  kept.foldl (fun acc key => match fs.get? key with
    | some v => Keyed.insert acc key v
    | none => acc) data

/-- An object after a change: new data in full, or some members only. -/
def changed (fs given : Json.Fields) : Except Refusal Json.Fields :=
  match given.get? fullUpdateKey with
  | some (.obj data) => .ok (replaced fs data)
  | some _ => .error .invalidReplacement
  | none => .ok (fs.merge given)

def update (s : Store) (f : Fresh) (c : Call) (bucket id : String) : Answer := do
  let given ← c.object
  let fs ← lookUp s bucket id
  c.checkEtag Reserved.etag fs
  let fs := renew (← changed fs given) f.first f.now
  return (.json 200 (.obj fs), s.putObject bucket id fs)

/-- An object that is marked stays where it is. -/
def delete (s : Store) (f : Fresh) (c : Call) (bucket id : String) : Answer := do
  let fs ← lookUp s bucket id
  c.checkEtag Reserved.etag fs
  if c.flag deleteMark then
    let fs := renew (fs.insert Reserved.deleted (.bool true)) f.first f.now
    return (.json 200 (.obj fs), s.putObject bucket id fs)
  else
    return (.json 200 (.obj [(Reserved.id, .str id)]), s.removeObject bucket id)

end Objects
end AppBackend.Server
