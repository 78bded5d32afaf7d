import AppBackend.Proofs.Json.Reading
import AppBackend.Proofs.Server.FileHistory

/-!
# Metadata of stored files

What the metadata of a file say, whatever calls brought it about: its name and the number of its
octets, a content type, an access list, no public address and both etags. Making a file states all
of that, and what a later call writes over it is of the same kind. Main statement:
`recorded_answerAll`.
-/

namespace AppBackend.Server

namespace Files

/-- The metadata of a file describe it. -/
structure Describes (name : String) (file : StoredFile) : Prop where
  filename : file.metadata.get? "filename" = some (.str name)
  length : file.metadata.get? "length" = some (.int file.content.length)
  contentType : ∃ t, t ≠ "" ∧ file.metadata.get? "contentType" = some (.str t)
  acl : ∃ fs, file.metadata.get? Reserved.acl = some (.obj fs)
  publicUrl : file.metadata.get? "publicUrl" = some (.str "")
  metaEtag : ∃ e, file.metadata.get? Files.metaEtag = some (.str e)
  fileEtag : ∃ e, file.metadata.get? Files.fileEtag = some (.str e)

/-- Members in order, no container among them but the access list. -/
structure Shallow (m : Json.Fields) : Prop where
  ordered : (Json.obj m).isOrdered = true
  flat : ∀ f ∈ m, f.1 = Reserved.acl ∨ f.2.depth = 0

/-- A file with metadata that describe it and that can be sent and read. -/
structure Recorded (name : String) (file : StoredFile) : Prop extends Describes name file where
  createdAt : ∃ t, file.metadata.get? Reserved.createdAt = some (.str t)
  updatedAt : ∃ t, file.metadata.get? Reserved.updatedAt = some (.str t)
  cacheDisabled : ∃ b, file.metadata.get? "cacheDisabled" = some (.bool b)
  shallow : Shallow file.metadata
  fits : file.content.length ≤ Call.maxBody

/-! ### What calls write -/

theorem Shallow.insert {m : Json.Fields} (h : Shallow m) (key : String) {v : Json}
    (hv : v.isOrdered = true) (hd : v.depth = 0) : Shallow (m.insert key v) where
  ordered := Json.isOrdered_insert h.ordered key hv
  flat := by
    intro f hf
    rcases Keyed.mem_insert hf with rfl | hf
    · exact Or.inr hd
    · exact h.flat f hf

theorem isOrdered_length {content : Bytes} (h : content.length ≤ Call.maxBody) :
    (Json.int content.length).isOrdered = true := by
  unfold Call.maxBody at h
  simp only [Json.isOrdered, Bool.and_eq_true, decide_eq_true_eq]
  omega

section
variable {f : Fresh} {name contentType : String} {content : Bytes} {m : Json.Fields}

theorem get?_newMetadata (f : Fresh) (name contentType : String) (length : Nat)
    (cacheDisabled : Bool) (acl : Json) (key : String) :
    (newMetadata f name contentType length cacheDisabled acl).get? key = Keyed.get?
      [("filename", .str name), ("contentType", .str contentType), ("length", .int length),
        (Reserved.createdAt, .str f.now.text), (Reserved.updatedAt, .str f.now.text),
        (metaEtag, .str f.first), (fileEtag, .str f.second),
        ("cacheDisabled", .bool cacheDisabled), ("publicUrl", .str ""), (Reserved.acl, acl)]
      key := by
  refine Keyed.get?_ofList ?_ key
  rw [← List.pairwise_map (f := Prod.fst) (R := (· ≠ ·))]
  exact (by decide : ["filename", "contentType", "length", Reserved.createdAt, Reserved.updatedAt,
      metaEtag, fileEtag, "cacheDisabled", "publicUrl", Reserved.acl].Pairwise (· ≠ ·))

theorem shallow_newMetadata (f : Fresh) (name contentType : String)
    (hfits : content.length ≤ Call.maxBody) (cacheDisabled : Bool) {acl : Json.Fields}
    (hacl : (Json.obj acl).isOrdered = true) :
    Shallow (newMetadata f name contentType content.length cacheDisabled (.obj acl)) := by
  have hnone : Shallow [] := ⟨rfl, by simp⟩
  have htext (key value : String) {m : Json.Fields} (h : Shallow m) :
      Shallow (m.insert key (.str value)) := h.insert key rfl rfl
  unfold newMetadata Keyed.ofList
  simp only [List.foldl_cons, List.foldl_nil]
  have hstart := htext "contentType" contentType (htext "filename" name hnone)
  have hsized := hstart.insert "length" (isOrdered_length hfits) rfl
  have hstamped := htext fileEtag f.second (htext metaEtag f.first
    (htext Reserved.updatedAt f.now.text (htext Reserved.createdAt f.now.text hsized)))
  have hwhole := htext "publicUrl" ""
    (hstamped.insert "cacheDisabled" (v := .bool cacheDisabled) rfl rfl)
  refine ⟨Json.isOrdered_insert hwhole.ordered Reserved.acl hacl, fun p hp => ?_⟩
  rcases Keyed.mem_insert hp with rfl | hp
  · exact Or.inl rfl
  · exact hwhole.flat p hp

theorem recorded_newMetadata (ht : contentType ≠ "") (hfits : content.length ≤ Call.maxBody)
    (cacheDisabled : Bool) {acl : Json.Fields} (hacl : (Json.obj acl).isOrdered = true) :
    Recorded name
      ⟨newMetadata f name contentType content.length cacheDisabled (.obj acl), content⟩ := by
  have hget := get?_newMetadata f name contentType content.length cacheDisabled (.obj acl)
  have hshallow := shallow_newMetadata f name contentType hfits cacheDisabled hacl
  generalize newMetadata f name contentType content.length cacheDisabled (.obj acl) = m at *
  simp only [Keyed.get?, metaEtag, fileEtag, Reserved.createdAt, Reserved.updatedAt,
    Reserved.acl] at hget
  constructor
  case shallow => exact hshallow
  case fits => exact hfits
  case toDescribes =>
    constructor <;> simp [hget, metaEtag, fileEtag, Reserved.acl, ht]
  all_goals simp [hget, Reserved.createdAt, Reserved.updatedAt]

/-- New content is recorded over the old, with a content type if one is given. -/
theorem recorded_withContent {old : Bytes} (h : Recorded name ⟨m, old⟩) (f : Fresh)
    {given : Option String} (ht : ∀ t, given = some t → t ≠ "")
    (hfits : content.length ≤ Call.maxBody) :
    Recorded name ⟨withContent f m given content.length, content⟩ := by
  obtain ⟨typed, htyped, hshallow, htype, hother⟩ : ∃ typed : Json.Fields,
      withContent f m given content.length = ((typed.insert "length" (.int content.length)).insert
        Files.fileEtag (.str f.first)).insert Reserved.updatedAt (.str f.now.text) ∧
      Shallow typed ∧ (∃ t, t ≠ "" ∧ typed.get? "contentType" = some (.str t)) ∧
      ∀ key, "contentType" ≠ key → typed.get? key = m.get? key := by
    cases given with
    | none => exact ⟨m, rfl, h.shallow, h.contentType, fun _ _ => rfl⟩
    | some t =>
      exact ⟨_, rfl, h.shallow.insert "contentType" rfl rfl,
        ⟨t, ht t rfl, Keyed.get?_insert_self ..⟩, fun key hkey => Keyed.get?_insert_of_ne _ _ hkey⟩
  rw [htyped]
  have hnew : Shallow (((typed.insert "length" (.int content.length)).insert Files.fileEtag
      (.str f.first)).insert Reserved.updatedAt (.str f.now.text)) :=
    ((hshallow.insert "length" (isOrdered_length hfits) rfl).insert _ rfl rfl).insert _ rfl rfl
  constructor
  case shallow => exact hnew
  case fits => exact hfits
  case toDescribes =>
    constructor
    case contentType => simpa [Keyed.get?_insert, fileEtag, Reserved.updatedAt] using htype
    case length => simp [Keyed.get?_insert, fileEtag, Reserved.updatedAt]
    case fileEtag => simp [Keyed.get?_insert, fileEtag, Reserved.updatedAt]
    case filename =>
      simpa [Keyed.get?_insert, fileEtag, Reserved.updatedAt, hother] using h.filename
    case acl =>
      simpa [Keyed.get?_insert, fileEtag, Reserved.updatedAt, Reserved.acl, hother] using h.acl
    case publicUrl =>
      simpa [Keyed.get?_insert, fileEtag, Reserved.updatedAt, hother] using h.publicUrl
    case metaEtag =>
      simpa [Keyed.get?_insert, fileEtag, metaEtag, Reserved.updatedAt, hother] using h.metaEtag
  case createdAt =>
    simpa [Keyed.get?_insert, fileEtag, Reserved.createdAt, Reserved.updatedAt, hother]
      using h.createdAt
  case updatedAt => exact ⟨_, Keyed.get?_insert_self ..⟩
  case cacheDisabled =>
    simpa [Keyed.get?_insert, fileEtag, Reserved.updatedAt, hother] using h.cacheDisabled

theorem recorded_marked {file : StoredFile} (h : Recorded name file) (etag : String) :
    Recorded name { file with metadata :=
      (file.metadata.insert Reserved.deleted (.bool true)).insert metaEtag (.str etag) } := by
  have hother {key : String} (hd : Reserved.deleted ≠ key) (hm : metaEtag ≠ key) :
      ((file.metadata.insert Reserved.deleted (.bool true)).insert metaEtag (.str etag)).get? key
        = file.metadata.get? key := by
    rw [Keyed.get?_insert_of_ne _ _ hm, Keyed.get?_insert_of_ne _ _ hd]
  have hnew : Shallow ((file.metadata.insert Reserved.deleted (.bool true)).insert metaEtag
      (.str etag)) := (h.shallow.insert Reserved.deleted rfl rfl).insert metaEtag rfl rfl
  constructor
  case shallow => exact hnew
  case fits => exact h.fits
  case toDescribes =>
    constructor
    case metaEtag => exact ⟨etag, Keyed.get?_insert_self ..⟩
    all_goals rw [hother (by decide) (by decide)]
    case filename => exact h.filename
    case length => exact h.length
    case contentType => exact h.contentType
    case acl => exact h.acl
    case publicUrl => exact h.publicUrl
    case fileEtag => exact h.fileEtag
  all_goals rw [hother (by decide) (by decide)]
  case createdAt => exact h.createdAt
  case updatedAt => exact h.updatedAt
  case cacheDisabled => exact h.cacheDisabled

end

/-! ### Handlers -/

section
variable {s s' : Store} {f : Fresh} {c : Call} {bucket name : String} {reply : Reply}

theorem object_of_acl {v : Json} (h : acl c = .ok v) :
    ∃ fs, v = .obj fs ∧ (Json.obj fs).isOrdered = true := by
  unfold acl at h
  split at h
  · exact ⟨_, (Except.ok.inj h).symm, by decide⟩
  · split at h
    · rename_i fs hread
      exact ⟨fs, (Except.ok.inj h).symm, (Json.fits_of_ofUnits? hread).1⟩
    · cases h

theorem recorded_of_create (h : create s f c bucket name = .ok (reply, s')) :
    ∃ file, s' = s.putFile bucket name file ∧ Recorded name file := by
  obtain ⟨content, hcontent, h⟩ := exists_of_bind_eq_ok h
  obtain rfl := Call.eq_of_content hcontent
  split at h
  · rename_i contentType htype
    obtain ⟨access, hacl, h⟩ := exists_of_bind_eq_ok h
    obtain ⟨fs, rfl, hordered⟩ := object_of_acl hacl
    split at h
    · cases h
    have hfull : contentType ≠ "" := by
      have hne := (Option.filter_eq_some_iff.1 htype).2
      simpa using hne
    exact ⟨_, (store_of_ok h).symm,
      recorded_newMetadata hfull (Call.fits_of_content hcontent) _ hordered⟩
  · cases h

theorem file?_of_lookUp {file : StoredFile} (h : lookUp s bucket name = .ok file) :
    s.file? bucket name = some file := by
  unfold lookUp at h
  split at h
  · rename_i found hfound
    rw [hfound, Except.ok.inj h]
  · cases h

theorem recorded_of_update (hold : ∀ file, s.file? bucket name = some file → Recorded name file)
    (h : update s f c bucket name = .ok (reply, s')) :
    ∃ file, s' = s.putFile bucket name file ∧ Recorded name file := by
  obtain ⟨content, hcontent, h⟩ := exists_of_bind_eq_ok h
  obtain ⟨file, hlook, h⟩ := exists_of_bind_eq_ok h
  obtain ⟨u, -, h⟩ := exists_of_bind_eq_ok h
  obtain rfl := Call.eq_of_content hcontent
  have hfull : ∀ t, contentType? c = some t → t ≠ "" := by
    intro t ht
    simpa using (Option.filter_eq_some_iff.1 ht).2
  exact ⟨_, (store_of_ok h).symm, recorded_withContent (hold file (file?_of_lookUp hlook)) f hfull
    (Call.fits_of_content hcontent)⟩

theorem recorded_of_delete (hold : ∀ file, s.file? bucket name = some file → Recorded name file)
    (h : delete s f c bucket name = .ok (reply, s')) :
    s' = s.removeFile bucket name ∨
      ∃ file, s' = s.putFile bucket name file ∧ Recorded name file := by
  obtain ⟨file, hlook, h⟩ := exists_of_bind_eq_ok h
  obtain ⟨u, -, h⟩ := exists_of_bind_eq_ok h
  split at h
  · exact Or.inr ⟨_, (store_of_ok h).symm,
      recorded_marked (hold file (file?_of_lookUp hlook)) f.first⟩
  · exact Or.inl (store_of_ok h).symm

end

end Files

/-! ### Stores -/

/-- The files of every bucket stand in the order of their names, and each is recorded. -/
structure Store.Recorded (s : Store) : Prop where
  ascending : ∀ bucket, Keyed.Ascending (s.filesIn bucket)
  each : ∀ bucket name file, s.file? bucket name = some file → Files.Recorded name file

section
variable {s s' : Store} {f : Fresh} {c : Call} {reply : Reply}

theorem Store.Recorded.putFile (h : s.Recorded) (bucket : String) {name : String}
    {file : StoredFile} (hfile : Files.Recorded name file) :
    (s.putFile bucket name file).Recorded where
  ascending := by
    intro b
    rw [Store.filesIn_putFile]
    split
    · exact (h.ascending bucket).insert name file
    · exact h.ascending b
  each := by
    intro b n found hfound
    rw [Store.file?_putFile] at hfound
    split at hfound
    · rename_i hplace
      rw [← hplace.2, ← Option.some.inj hfound]
      exact hfile
    · exact h.each b n found hfound

theorem Store.Recorded.removeFile (h : s.Recorded) (bucket name : String) :
    (s.removeFile bucket name).Recorded where
  ascending := by
    intro b
    rw [Store.filesIn_removeFile]
    split
    · exact (h.ascending bucket).erase name
    · exact h.ascending b
  each := by
    intro b n found hfound
    rw [Store.file?_removeFile] at hfound
    split at hfound
    · cases hfound
    · exact h.each b n found hfound

theorem Store.Recorded.of_same (h : s.Recorded) (hsame : s'.files = s.files) : s'.Recorded := by
  have hin (bucket : String) : s'.filesIn bucket = s.filesIn bucket := by
    rw [Store.filesIn, hsame, Store.filesIn]
  refine ⟨fun bucket => ?_, fun bucket name file hfile => ?_⟩
  · rw [hin]
    exact h.ascending bucket
  · rw [Store.file?, hin] at hfile
    exact h.each bucket name file hfile

theorem Action.files_of_run {a : Action} (h : a.run s f c = .ok (reply, s'))
    (hplace : ∀ bucket name, a.place? f c ≠ some (.file bucket name)) : s'.files = s.files := by
  obtain ⟨rfl, -⟩ | ⟨p, x, hp, -⟩ := Action.does_run h
  · rfl
  · cases a with
    | logIn =>
      obtain rfl := store_of_logIn h
      rfl
    | logOut =>
      obtain ⟨token, -, rfl⟩ := store_of_logOut h
      rfl
    | createObject b =>
      obtain ⟨fs, hedit, -⟩ := Objects.made_of_create h
      exact hedit.others .file (by decide)
    | updateObject b i =>
      obtain ⟨fs, new, -, -, -, hedit⟩ := Objects.written_of_update h
      exact hedit.others .file (by decide)
    | deleteObject b i =>
      obtain ⟨fs, new, -, -, -, hedit⟩ := Objects.written_of_delete h
      exact hedit.others .file (by decide)
    | createFile b n | updateFile b n | deleteFile b n => exact absurd rfl (hplace b n)
    | _ => cases hp

theorem recorded_of_run {a : Action} (hold : s.Recorded) (h : a.run s f c = .ok (reply, s')) :
    s'.Recorded := by
  by_cases hplace : ∀ bucket name, a.place? f c ≠ some (.file bucket name)
  · exact hold.of_same (Action.files_of_run h hplace)
  · cases a with
    | createFile b n =>
      obtain ⟨file, rfl, hfile⟩ := Files.recorded_of_create h
      exact hold.putFile b hfile
    | updateFile b n =>
      obtain ⟨file, rfl, hfile⟩ := Files.recorded_of_update (hold.each b n) h
      exact hold.putFile b hfile
    | deleteFile b n =>
      obtain rfl | ⟨file, rfl, hfile⟩ := Files.recorded_of_delete (hold.each b n) h
      · exact hold.removeFile b n
      · exact hold.putFile b hfile
    | logOut =>
      refine absurd (fun bucket name hp => ?_) hplace
      obtain ⟨token, -, hsession⟩ := Option.map_eq_some_iff.1 hp
      cases hsession
    | _ => exact absurd (fun bucket name hp => by cases hp) hplace

theorem recorded_answer {fresh : Nat → Fresh} {b : Backend} (h : b.store.Recorded) (c : Call) :
    (b.answer fresh c).2.store.Recorded := by
  obtain ⟨hsame, -⟩ | ⟨a, reply, -, hrun, -⟩ := answer_runs b.store (fresh b.calls) c
  · have hstore : (b.answer fresh c).2.store = b.store := hsame
    rw [hstore]
    exact h
  · exact recorded_of_run h hrun

theorem recorded_answerAll {fresh : Nat → Fresh} {b : Backend} (h : b.store.Recorded)
    (calls : List Call) : (b.answerAll fresh calls).store.Recorded := by
  induction calls generalizing b with
  | nil => exact h
  | cons c calls ih =>
    rw [Backend.answerAll, List.foldl_cons, ← Backend.answerAll]
    exact ih (recorded_answer h c)

theorem recorded_empty : Store.Recorded {} where
  ascending := fun _ => List.Pairwise.nil
  each := fun _ _ _ h => by cases h

end

end AppBackend.Server
