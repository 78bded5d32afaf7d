import AppBackend.Json.Record
import AppBackend.Json.Writer
import AppBackend.Time.Timestamp

/-!
# Accounts

A user as the server describes it. Members that are absent read as empty; one of the wrong shape
makes the whole description unreadable.
-/

namespace AppBackend

structure Account where
  id : String := ""
  username : String := ""
  email : String := ""
  options : Json.Fields := []
  groups : List String := []
  createdAt : String := ""
  updatedAt : String := ""
deriving Inhabited

namespace Account

def members : List Json.Member :=
  [⟨"_id", .text⟩, ⟨"username", .text⟩, ⟨"email", .text⟩, ⟨"options", .object⟩,
    ⟨"groups", .texts⟩, ⟨"createdAt", .text⟩, ⟨"updatedAt", .text⟩]

/-- The text form: all members may be left out, others are passed over. -/
def schema : Json.Schema := ⟨members, [], .upTo, fun _ => .skim⟩

def ofMembers (fs : Json.Fields) : Account where
  id := fs.text "_id"
  username := fs.text "username"
  email := fs.text "email"
  options := ((fs.get? "options").bind Json.obj?).getD []
  groups := (((fs.get? "groups").bind Json.arr?).getD []).filterMap Json.str?
  createdAt := fs.text "createdAt"
  updatedAt := fs.text "updatedAt"

def ofText? (text : String) : Option Account :=
  match schema.ofUnits (text.toList.map some) with
  | .ok fs => some (ofMembers fs)
  | .error _ => none

def ofObject? (fs : Json.Fields) : Option Account := (schema.ofFields? fs).map ofMembers

def toMembers (a : Account) : List (String × Json) :=
  [("_id", .str a.id), ("username", .str a.username), ("email", .str a.email),
    ("options", .obj a.options), ("groups", .arr (a.groups.map .str)),
    ("createdAt", .str a.createdAt), ("updatedAt", .str a.updatedAt)]

def text (a : Account) : String := (Json.obj a.toMembers).text

def createdTime? (a : Account) : Option Timestamp := Timestamp.ofText? a.createdAt

def updatedTime? (a : Account) : Option Timestamp := Timestamp.ofText? a.updatedAt

end Account
end AppBackend
