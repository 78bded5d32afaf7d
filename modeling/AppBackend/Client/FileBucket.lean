import AppBackend.Client.FileMetadata
import AppBackend.Client.ObjectBucket

/-!
# File buckets

Reading and writing the files of a bucket, from and to local paths.
-/

namespace AppBackend.FileBucket

variable {ε ω : Type}

def path : String := "/files"

def metaEtagKey : String := "metaETag"

def fileEtagKey : String := "fileETag"

def target (m : Method) (b : Bucket) (name : String) : List Draft.Step :=
  [.target m path,
    .appendPath ("/" ++ b.name ++ "/" ++ String.ofList (Percent.encode name))]

def etagParams (metaEtag fileEtag : String) : List Draft.Step :=
  [.appendParam metaEtagKey metaEtag, .appendParam fileEtagKey fileEtag]

def ofResponse (b : Bucket) (r : Response) : FileMetadata := .ofObject b.name r.jsonObject

def download (e : Engine ε ω) (now : Int) (b : Bucket) (name localPath : String) (c : Client ε ω) :
    Outcome Nat × Client ε ω :=
  if name = "" ∨ localPath = "" then (.fatal .invalidArgument, c)
  else if b.name = "" then (.fatal .noBucket, c)
  else
    let (o, c) := c.request e now (target .get b name) (.download localPath) b.timeout
    (o.map fun r => (declaredLength? r).getD 0, c)

/-- Uploads a new file. An empty access list stands for the bucket's own. -/
def uploadNew (e : Engine ε ω) (now : Int) (b : Bucket) (name localPath contentType acl : String)
    (cacheDisabled : Bool) (c : Client ε ω) : Outcome FileMetadata × Client ε ω :=
  if name = "" ∨ localPath = "" ∨ contentType = "" then (.fatal .invalidArgument, c)
  else if b.name = "" then (.fatal .noBucket, c)
  else
    let steps := target .post b name
      ++ [.appendHeader HeaderName.contentType contentType, .appendHeader HeaderName.acl acl]
      ++ Draft.Step.optionalParam cacheDisabled "cacheDisabled" "true"
    let (o, c) := c.request e now steps (.upload localPath) b.timeout
    (o.map (ofResponse b), c)

/-- Replaces the content of a file. An empty content type and empty etags are left out. -/
def uploadUpdate (e : Engine ε ω) (now : Int) (b : Bucket)
    (name localPath contentType metaEtag fileEtag : String) (c : Client ε ω) :
    Outcome FileMetadata × Client ε ω :=
  if name = "" ∨ localPath = "" then (.fatal .invalidArgument, c)
  else if b.name = "" then (.fatal .noBucket, c)
  else
    let steps := target .put b name
      ++ .appendHeader HeaderName.contentType contentType :: etagParams metaEtag fileEtag
    let (o, c) := c.request e now steps (.upload localPath) b.timeout
    (o.map (ofResponse b), c)

def uploadUpdateOf (e : Engine ε ω) (now : Int) (b : Bucket) (m : FileMetadata) (localPath : String)
    (c : Client ε ω) : Outcome FileMetadata × Client ε ω :=
  uploadUpdate e now b m.filename localPath m.contentType m.metaEtag m.fileEtag c

def delete (e : Engine ε ω) (now : Int) (b : Bucket) (name metaEtag fileEtag : String) (mark : Bool)
    (c : Client ε ω) : Outcome Json.Fields × Client ε ω :=
  if name = "" then (.fatal .invalidArgument, c)
  else if b.name = "" then (.fatal .noBucket, c)
  else
    let steps := target .delete b name ++ etagParams metaEtag fileEtag
      ++ Draft.Step.optionalParam mark deleteMark "1"
    let (o, c) := c.request e now steps .plain b.timeout
    (o.map Response.jsonObject, c)

/-- The files of a bucket: all, or the published ones; `mark` brings in the deleted ones. -/
def list (e : Engine ε ω) (now : Int) (b : Bucket) (published mark : Bool) (c : Client ε ω) :
    Outcome (List FileMetadata) × Client ε ω :=
  if b.name = "" then (.fatal .noBucket, c)
  else
    let steps := [.target .get path, .appendPath ("/" ++ b.name)]
      ++ Draft.Step.optionalParam published "published" "1"
      ++ Draft.Step.optionalParam mark deleteMark "1"
    let (o, c) := c.request e now steps .plain b.timeout
    (o.map fun r =>
      (((r.jsonObject.get? "results").bind Json.arr?).getD []).filterMap fun item =>
        item.obj?.map (.ofObject b.name), c)

end AppBackend.FileBucket
