import AppBackend.Server.Objects
import AppBackend.Server.Users

/-!
# Files on the server

Listing, reading, making, replacing and deleting the files of a bucket. A file has two etags: one
changes with its content, the other with the mark of deletion; a call may ask for either.
-/

namespace AppBackend.Server.Files

def metaEtag : String := "metaETag"

def fileEtag : String := "fileETag"

/-- Downloads from this bucket declare more octets than they have. -/
def truncatedBucket : String := "truncated"

def missingOctets : Nat := 10

/-! ### Reading -/

def isPublished (m : Json.Fields) : Bool := m.text "publicUrl" != ""

/-- The metadata of the files that can be seen, in ascending order of their names. -/
def listing (files : Keyed StoredFile) (deletedToo publishedOnly : Bool) : List Json.Fields :=
  (files.values.map (·.metadata)).filter fun m =>
    isVisible deletedToo m && (!publishedOnly || isPublished m)

def list (s : Store) (c : Call) (bucket : String) : Answer :=
  let found := listing (s.filesIn bucket) (c.flag deleteMark) (c.flag "published")
  .ok (.json 200 (.obj [("results", .arr (found.map .obj))]), s)

def lookUp (s : Store) (bucket name : String) : Except Refusal StoredFile :=
  match s.file? bucket name with
  | some file => .ok file
  | none => .error .notFound

def declaredLength (bucket : String) (content : Bytes) : Nat :=
  if bucket = truncatedBucket then content.length + missingOctets else content.length

def defaultContentType : String := "application/octet-stream"

/-- A file marked as deleted cannot be read. -/
def read (s : Store) (bucket name : String) : Answer := do
  let file ← lookUp s bucket name
  if isDeleted file.metadata then throw .notFound
  let contentType :=
    ((file.metadata.get? "contentType").bind Json.str?).getD defaultContentType
  let length := String.ofList (Numeral.write (declaredLength bucket file.content))
  let headers := [(Reply.contentType, contentType), (Reply.fileLength, length)]
  return (⟨200, headers, file.content⟩, s)

/-! ### Writing -/

/-- The content type that a call gives, if it is not empty. -/
def contentType? (c : Call) : Option String :=
  (c.header? HeaderName.contentType).filter fun t => t != ""

/-- Who may use a file if the call does not say. -/
def defaultAcl : Json := .obj [("owner", .str userId)]

def acl (c : Call) : Except Refusal Json :=
  match c.header? HeaderName.acl with
  | none => .ok defaultAcl
  | some text =>
    match Json.ofString? text with
    | some (.obj fs) => .ok (.obj fs)
    | _ => .error .invalidAcl

def newMetadata (f : Fresh) (name contentType : String) (length : Nat) (cacheDisabled : Bool)
    (acl : Json) : Json.Fields :=
  Keyed.ofList
    [("filename", .str name), ("contentType", .str contentType), ("length", .int length),
      (Reserved.createdAt, .str f.now.text), (Reserved.updatedAt, .str f.now.text),
      (metaEtag, .str f.first), (fileEtag, .str f.second), ("cacheDisabled", .bool cacheDisabled),
      ("publicUrl", .str ""), (Reserved.acl, acl)]

def create (s : Store) (f : Fresh) (c : Call) (bucket name : String) : Answer := do
  let content ← c.content
  let some contentType := contentType? c | throw .noContentType
  let acl ← acl c
  if (s.file? bucket name).isSome then throw .duplicateName
  let m := newMetadata f name contentType content.length (c.flag "cacheDisabled") acl
  return (.json 201 (.obj m), s.putFile bucket name ⟨m, content⟩)

def checkEtags (c : Call) (m : Json.Fields) : Except Refusal Unit := do
  c.checkEtag metaEtag m
  c.checkEtag fileEtag m

def withContent (f : Fresh) (m : Json.Fields) (contentType : Option String) (length : Nat) :
    Json.Fields :=
  let m := match contentType with
    | some t => m.insert "contentType" (.str t)
    | none => m
  ((m.insert "length" (.int length)).insert fileEtag (.str f.first)).insert Reserved.updatedAt
    (.str f.now.text)

def update (s : Store) (f : Fresh) (c : Call) (bucket name : String) : Answer := do
  let content ← c.content
  let file ← lookUp s bucket name
  checkEtags c file.metadata
  let m := withContent f file.metadata (contentType? c) content.length
  return (.json 200 (.obj m), s.putFile bucket name ⟨m, content⟩)

/-- A file that is marked stays where it is. -/
def delete (s : Store) (f : Fresh) (c : Call) (bucket name : String) : Answer := do
  let file ← lookUp s bucket name
  checkEtags c file.metadata
  if c.flag deleteMark then
    let m := (file.metadata.insert Reserved.deleted (.bool true)).insert metaEtag (.str f.first)
    return (.json 200 (.obj m), s.putFile bucket name { file with metadata := m })
  else
    return (.json 200 (.obj file.metadata), s.removeFile bucket name)

end AppBackend.Server.Files
