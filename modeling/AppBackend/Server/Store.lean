import AppBackend.Json.Basic
import AppBackend.Text.Utf8

/-!
# The store of the server

Sessions by token, objects by bucket and id, files by bucket and name. Main statements:
`object?_putObject`, `object?_removeObject` and their likes for files and sessions, what a look-up
finds after a change; a change of one kind leaves the other kinds alone by definition.
-/

namespace AppBackend.Server

structure StoredFile where
  metadata : Json.Fields
  content : Bytes
deriving Inhabited

structure Store where
  /-- When each session runs out, in seconds since 1970 began. -/
  sessions : Keyed Int := []
  objects : Keyed (Keyed Json.Fields) := []
  files : Keyed (Keyed StoredFile) := []
deriving Inhabited

namespace Store

/-! ### Sessions -/

/-- A session is live until its last second begins. -/
def isLive (s : Store) (now : Int) (token : String) : Bool :=
  match s.sessions.get? token with
  | some expiry => now < expiry
  | none => false

def addSession (s : Store) (token : String) (expiry : Int) : Store :=
  { s with sessions := s.sessions.insert token expiry }

def removeSession (s : Store) (token : String) : Store :=
  { s with sessions := s.sessions.erase token }

theorem isLive_iff {s : Store} {now : Int} {token : String} :
    s.isLive now token = true ↔ ∃ expiry, s.sessions.get? token = some expiry ∧ now < expiry := by
  unfold isLive
  split <;> simp_all

theorem session_addSession (s : Store) (token other : String) (expiry : Int) :
    (s.addSession token expiry).sessions.get? other
      = if token = other then some expiry else s.sessions.get? other :=
  Keyed.get?_insert s.sessions token other expiry

theorem session_removeSession (s : Store) (token other : String) :
    (s.removeSession token).sessions.get? other
      = if token = other then none else s.sessions.get? other :=
  Keyed.get?_erase s.sessions token other

/-! ### Objects -/

/-- The objects of a bucket, in ascending order of their ids. -/
def objectsIn (s : Store) (bucket : String) : Keyed Json.Fields := (s.objects.get? bucket).getD []

def object? (s : Store) (bucket id : String) : Option Json.Fields := (s.objectsIn bucket).get? id

def putObject (s : Store) (bucket id : String) (fs : Json.Fields) : Store :=
  { s with objects := s.objects.insert bucket ((s.objectsIn bucket).insert id fs) }

def removeObject (s : Store) (bucket id : String) : Store :=
  { s with objects := s.objects.insert bucket ((s.objectsIn bucket).erase id) }

theorem objectsIn_putObject (s : Store) (bucket other id : String) (fs : Json.Fields) :
    (s.putObject bucket id fs).objectsIn other
      = if bucket = other then (s.objectsIn bucket).insert id fs else s.objectsIn other := by
  simp only [objectsIn, putObject, Keyed.get?_insert]
  split <;> rfl

theorem objectsIn_removeObject (s : Store) (bucket other id : String) :
    (s.removeObject bucket id).objectsIn other
      = if bucket = other then (s.objectsIn bucket).erase id else s.objectsIn other := by
  simp only [objectsIn, removeObject, Keyed.get?_insert]
  split <;> rfl

theorem object?_putObject (s : Store) (bucket id b i : String) (fs : Json.Fields) :
    (s.putObject bucket id fs).object? b i
      = if bucket = b ∧ id = i then some fs else s.object? b i := by
  rw [object?, objectsIn_putObject]
  by_cases hb : bucket = b
  · subst hb
    rw [if_pos rfl, Keyed.get?_insert]
    by_cases hi : id = i <;> simp [hi, object?]
  · simp [hb, object?]

theorem object?_removeObject (s : Store) (bucket id b i : String) :
    (s.removeObject bucket id).object? b i
      = if bucket = b ∧ id = i then none else s.object? b i := by
  rw [object?, objectsIn_removeObject]
  by_cases hb : bucket = b
  · subst hb
    rw [if_pos rfl, Keyed.get?_erase]
    by_cases hi : id = i <;> simp [hi, object?]
  · simp [hb, object?]

/-! ### Files -/

/-- The files of a bucket, in ascending order of their names. -/
def filesIn (s : Store) (bucket : String) : Keyed StoredFile := (s.files.get? bucket).getD []

def file? (s : Store) (bucket name : String) : Option StoredFile := (s.filesIn bucket).get? name

def putFile (s : Store) (bucket name : String) (f : StoredFile) : Store :=
  { s with files := s.files.insert bucket ((s.filesIn bucket).insert name f) }

def removeFile (s : Store) (bucket name : String) : Store :=
  { s with files := s.files.insert bucket ((s.filesIn bucket).erase name) }

theorem filesIn_putFile (s : Store) (bucket other name : String) (f : StoredFile) :
    (s.putFile bucket name f).filesIn other
      = if bucket = other then (s.filesIn bucket).insert name f else s.filesIn other := by
  simp only [filesIn, putFile, Keyed.get?_insert]
  split <;> rfl

theorem filesIn_removeFile (s : Store) (bucket other name : String) :
    (s.removeFile bucket name).filesIn other
      = if bucket = other then (s.filesIn bucket).erase name else s.filesIn other := by
  simp only [filesIn, removeFile, Keyed.get?_insert]
  split <;> rfl

theorem file?_putFile (s : Store) (bucket name b n : String) (f : StoredFile) :
    (s.putFile bucket name f).file? b n
      = if bucket = b ∧ name = n then some f else s.file? b n := by
  rw [file?, filesIn_putFile]
  by_cases hb : bucket = b
  · subst hb
    rw [if_pos rfl, Keyed.get?_insert]
    by_cases hn : name = n <;> simp [hn, file?]
  · simp [hb, file?]

theorem file?_removeFile (s : Store) (bucket name b n : String) :
    (s.removeFile bucket name).file? b n
      = if bucket = b ∧ name = n then none else s.file? b n := by
  rw [file?, filesIn_removeFile]
  by_cases hb : bucket = b
  · subst hb
    rw [if_pos rfl, Keyed.get?_erase]
    by_cases hn : name = n <;> simp [hn, file?]
  · simp [hb, file?]

end Store
end AppBackend.Server
