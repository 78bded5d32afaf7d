import AppBackend.Json.Record
import AppBackend.Time.Timestamp

/-!
# File metadata

What the server tells about a stored file. Members that are absent read as empty; one of the wrong
shape makes the whole description unreadable.
-/

namespace AppBackend

structure FileMetadata where
  bucket : String := ""
  filename : String := ""
  contentType : String := ""
  length : Nat := 0
  createdAt : String := ""
  updatedAt : String := ""
  /-- Changes with the description. -/
  metaEtag : String := ""
  /-- Changes with the content. -/
  fileEtag : String := ""
  cacheDisabled : Bool := false
  publicUrl : String := ""
  acl : Option Json := none
deriving Inhabited

namespace FileMetadata

def schema : Json.Schema where
  members :=
    [⟨"filename", .text⟩, ⟨"contentType", .text⟩, ⟨"length", .nat64⟩, ⟨"createdAt", .text⟩,
      ⟨"updatedAt", .text⟩, ⟨"metaETag", .text⟩, ⟨"fileETag", .text⟩, ⟨"cacheDisabled", .flag⟩,
      ⟨"publicUrl", .text⟩, ⟨"ACL", .any⟩]
  required := []
  positional := .upTo
  unknown := fun _ => .skim

/-- Metadata from members that have their shapes; a null access list is none. -/
def ofMembers (fs : Json.Fields) : FileMetadata where
  filename := fs.text "filename"
  contentType := fs.text "contentType"
  length := (((fs.get? "length").bind Json.int?).getD 0).toNat
  createdAt := fs.text "createdAt"
  updatedAt := fs.text "updatedAt"
  metaEtag := fs.text "metaETag"
  fileEtag := fs.text "fileETag"
  cacheDisabled := fs.flag "cacheDisabled"
  publicUrl := fs.text "publicUrl"
  acl := match fs.get? "ACL" with
    | some .null => none
    | other => other

def ofText? (text : String) : Option FileMetadata :=
  match schema.ofUnits (text.toList.map some) with
  | .ok fs => some (ofMembers fs)
  | .error _ => none

def ofObject (bucket : String) (fs : Json.Fields) : FileMetadata :=
  { ((schema.ofFields? fs).map ofMembers).getD {} with bucket := bucket }

def createdTime? (m : FileMetadata) : Option Timestamp := Timestamp.ofText? m.createdAt

def updatedTime? (m : FileMetadata) : Option Timestamp := Timestamp.ofText? m.updatedAt

end FileMetadata
end AppBackend
