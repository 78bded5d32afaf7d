import AppBackend.Proofs.Server.ConditionalWrites
import AppBackend.Proofs.Server.FileRecords

/-!
# Files listed

What a client is told of the files of a bucket. The list comes as one object whose items are read as
records, all or nothing; metadata that are recorded have every member in its shape. Main statement:
`files_described_and_listed`.
-/

namespace AppBackend

namespace Server

namespace Files

/-! ### One file -/

/-- What a client is told of a file. -/
structure Tells (bucket name : String) (file : StoredFile) (m : FileMetadata) : Prop where
  bucket : m.bucket = bucket
  filename : m.filename = name
  length : m.length = file.content.length
  contentType : file.metadata.get? "contentType" = some (.str m.contentType)
  metaEtag : file.metadata.get? Files.metaEtag = some (.str m.metaEtag)
  fileEtag : file.metadata.get? Files.fileEtag = some (.str m.fileEtag)
  /-- A record that could not be read would have no content type. -/
  full : m.contentType ≠ ""

section
variable {name : String} {file : StoredFile}

theorem Recorded.conforms (h : Recorded name file) {p : String × Json} (hp : p ∈ file.metadata)
    {d : Json.Member} (hd : FileMetadata.schema.member? p.1 = some d) :
    d.shape.conforms p.2.reread = true := by
  obtain ⟨key, v⟩ := p
  have hget := (Json.isOrdered_obj.1 h.shallow.ordered).1.get?_of_mem hp
  have hvalue {w : Json} (hw : file.metadata.get? key = some w) : v = w :=
    Option.some.inj (hget.symm.trans hw)
  have hname : d.name = key := by simpa using List.find?_some hd
  have hmem := List.mem_of_find?_eq_some hd
  simp only [FileMetadata.schema, List.mem_cons, List.not_mem_nil, or_false] at hmem
  -- one case for each member of the schema, in its order; the access list may be anything
  rcases hmem with rfl | rfl | rfl | rfl | rfl | rfl | rfl | rfl | rfl | rfl <;>
    obtain rfl := hname
  · rw [hvalue h.filename]; rfl
  · obtain ⟨t, -, ht⟩ := h.contentType
    rw [hvalue ht]; rfl
  · have hfits := h.fits
    unfold Call.maxBody at hfits
    rw [hvalue h.length]
    simp only [Json.reread, Json.Shape.conforms, Bool.and_eq_true, decide_eq_true_eq]
    omega
  · obtain ⟨t, ht⟩ := h.createdAt
    rw [hvalue ht]; rfl
  · obtain ⟨t, ht⟩ := h.updatedAt
    rw [hvalue ht]; rfl
  · obtain ⟨e, he⟩ := h.metaEtag
    rw [hvalue he]; rfl
  · obtain ⟨e, he⟩ := h.fileEtag
    rw [hvalue he]; rfl
  · obtain ⟨b, hb⟩ := h.cacheDisabled
    rw [hvalue hb]; rfl
  · rw [hvalue h.publicUrl]; rfl
  · rfl

theorem tells_ofObject (h : Recorded name file) (bucket : String) :
    Tells bucket name file (.ofObject bucket (Json.rereadMembers file.metadata)) := by
  let known : Json.Fields := (Json.rereadMembers file.metadata).filter fun p =>
    (FileMetadata.schema.member? p.1).isSome
  have hread : FileMetadata.schema.ofFields? (Json.rereadMembers file.metadata) = some known := by
    have hfits : (known.all fun p => ((FileMetadata.schema.member? p.1).map fun d =>
        d.shape.conforms p.2).getD false) = true := by
      rw [List.all_eq_true]
      intro p hp
      obtain ⟨hmem, hsome⟩ := List.mem_filter.1 hp
      rw [Json.rereadMembers_eq_map] at hmem
      obtain ⟨q, hq, rfl⟩ := List.mem_map.1 hmem
      obtain ⟨d, hd⟩ := Option.isSome_iff_exists.1 hsome
      rw [hd]
      exact h.conforms hq hd
    rw [Json.Schema.ofFields?]
    exact if_pos (by rw [hfits]; rfl)
  have hget {key : String} {v : Json} (hkey : (FileMetadata.schema.member? key).isSome = true)
      (hv : file.metadata.get? key = some v) : known.get? key = some v.reread := by
    have hfilter := Keyed.get?_filter (fun k => (FileMetadata.schema.member? k).isSome)
      (Json.rereadMembers file.metadata) key
    rw [if_pos hkey, Json.get?_rereadMembers, hv] at hfilter
    exact hfilter
  have htext {key t : String} (hkey : (FileMetadata.schema.member? key).isSome = true)
      (ht : file.metadata.get? key = some (.str t)) : known.text key = t := by
    rw [Json.Fields.text, hget hkey ht]
    rfl
  obtain ⟨t, hfull, ht⟩ := h.contentType
  obtain ⟨metaEtag, hmeta⟩ := h.metaEtag
  obtain ⟨fileEtag, hfile⟩ := h.fileEtag
  have hlength : (((known.get? "length").bind Json.int?).getD 0).toNat = file.content.length := by
    rw [hget (by decide) h.length]
    rfl
  rw [FileMetadata.ofObject, hread]
  exact {
    bucket := rfl
    filename := htext (by decide) h.filename
    length := hlength
    contentType := ht.trans (congrArg (some ∘ Json.str) (htext (by decide) ht).symm)
    metaEtag := hmeta.trans (congrArg (some ∘ Json.str) (htext (by decide) hmeta).symm)
    fileEtag := hfile.trans (congrArg (some ∘ Json.str) (htext (by decide) hfile).symm)
    full := fun he => hfull ((htext (by decide) ht).symm.trans he) }

end

/-! ### The files of a bucket -/

section
variable {s : Store} {bucket : String} {mark : Bool}

/-- A list of the files that can be seen, in the order of their names. -/
structure Lists (s : Store) (bucket : String) (mark : Bool) (found : List FileMetadata) :
    Prop where
  ascending : found.Pairwise (·.filename < ·.filename)
  each : ∀ m ∈ found, ∃ file, s.file? bucket m.filename = some file ∧
    isVisible mark file.metadata = true ∧ Tells bucket m.filename file m
  all : ∀ name file, s.file? bucket name = some file → isVisible mark file.metadata = true →
    ∃ m ∈ found, m.filename = name

/-- What a client makes of the metadata that a list holds. -/
def told (bucket : String) (ms : List Json.Fields) : List FileMetadata :=
  ms.map fun m => .ofObject bucket (Json.rereadMembers m)

theorem recorded_of_mem (h : s.Recorded) {p : String × StoredFile}
    (hp : p ∈ s.filesIn bucket) : s.file? bucket p.1 = some p.2 ∧ Recorded p.1 p.2 := by
  have hfile : s.file? bucket p.1 = some p.2 := (h.ascending bucket).get?_of_mem hp
  exact ⟨hfile, h.each bucket p.1 p.2 hfile⟩

theorem listing_all (files : Keyed StoredFile) (mark : Bool) :
    listing files mark false
      = (files.filter fun p => isVisible mark p.2.metadata).map (·.2.metadata) := by
  rw [listing, Keyed.values, List.map_map, List.filter_map]
  refine congrArg (List.map _) (List.filter_congr fun p _ => ?_)
  rw [Function.comp_apply, Bool.not_false, Bool.true_or, Bool.and_true]
  rfl

theorem lists_told (h : s.Recorded) (bucket : String) (mark : Bool) :
    Lists s bucket mark (told bucket (listing (s.filesIn bucket) mark false)) := by
  rw [listing_all, told, List.map_map]
  have htells {p : String × StoredFile} (hp : p ∈ s.filesIn bucket) :=
    tells_ofObject (recorded_of_mem h hp).2 bucket
  refine ⟨?_, ?_, ?_⟩
  · rw [List.pairwise_map]
    refine ((h.ascending bucket).filter _).imp_of_mem fun hp hq hlt => ?_
    simp only [Function.comp_apply]
    rw [(htells (List.mem_filter.1 hp).1).filename, (htells (List.mem_filter.1 hq).1).filename]
    exact hlt
  · intro m hm
    obtain ⟨p, hp, rfl⟩ := List.mem_map.1 hm
    obtain ⟨hp, hvisible⟩ := List.mem_filter.1 hp
    have htold := htells hp
    rw [Function.comp_apply, htold.filename]
    exact ⟨p.2, (recorded_of_mem h hp).1, hvisible, htold⟩
  · intro name file hfile hvisible
    have hp : (name, file) ∈ s.filesIn bucket := Keyed.mem_of_get? hfile
    exact ⟨_, List.mem_map_of_mem (List.mem_filter.2 ⟨hp, hvisible⟩), (htells hp).filename⟩

theorem listing_published (h : s.Recorded) (bucket : String) (mark : Bool) :
    listing (s.filesIn bucket) mark true = [] := by
  rw [listing, Keyed.values, List.map_map, List.filter_eq_nil_iff]
  intro m hm
  obtain ⟨p, hp, rfl⟩ := List.mem_map.1 hm
  -- no file has a public address
  have hurl : (p.2.metadata.get? "publicUrl") = some (.str "") :=
    (recorded_of_mem h hp).2.publicUrl
  have hnot : isPublished p.2.metadata = false := by
    rw [isPublished, Json.Fields.text, hurl]
    rfl
  simp [hnot]

/-! ### The reply -/

/-- How deep the access lists of a bucket may be. -/
def Flat (s : Store) (bucket : String) (n : Nat) : Prop :=
  ∀ name file acl, s.file? bucket name = some file →
    file.metadata.get? Reserved.acl = some acl → acl.depth ≤ n

theorem Recorded.depth_le {name : String} {file : StoredFile} (h : Recorded name file) {n : Nat}
    (hacl : ∀ acl, file.metadata.get? Reserved.acl = some acl → acl.depth ≤ n) :
    (Json.obj file.metadata).depth ≤ n + 1 := by
  have hmembers : Json.depthOfMembers file.metadata ≤ n := by
    refine Json.depthOfMembers_le fun p hp => ?_
    obtain ⟨key, v⟩ := p
    rcases h.shallow.flat _ hp with hkey | hzero
    · obtain rfl : key = Reserved.acl := hkey
      exact hacl v ((Json.isOrdered_obj.1 h.shallow.ordered).1.get?_of_mem hp)
    · exact hzero ▸ Nat.zero_le n
  rw [Json.depth]
  omega

/-- Metadata that are sent as a list arrive, if they are in order and not too deep. -/
theorem results_received {ms : List Json.Fields}
    (hordered : ∀ m ∈ ms, (Json.obj m).isOrdered = true)
    (hdepth : ∀ m ∈ ms, (Json.obj m).depth ≤ 125) (bucket : String) :
    (((((Reply.json 200 (.obj [("results", .arr (ms.map .obj))])).received.jsonObject.get?
      "results").bind Json.arr?).getD []).filterMap fun item =>
        item.obj?.map (FileMetadata.ofObject bucket)) = told bucket ms := by
  have hdeep : Json.depthOfItems (ms.map .obj) ≤ 125 := by
    refine Json.depthOfItems_le fun v hv => ?_
    obtain ⟨m, hm, rfl⟩ := List.mem_map.1 hv
    exact hdepth m hm
  have hfits : (Json.obj [("results", .arr (ms.map .obj))]).depth ≤ 127 := by
    simp only [Json.depth, Json.depthOfMembers]
    omega
  rw [Reply.jsonObject_received_of_list hordered, if_pos hfits]
  exact Json.filterMap_reread_objs (FileMetadata.ofObject bucket) ms

end

end Files

/-! ### Requests for lists -/

/-- The parameters of a request for a list. -/
def listParams (published mark : Bool) : Pairs :=
  (if published then [("published", "1")] else []) ++ if mark then [(deleteMark, "1")] else []

theorem filter_listParams (published mark : Bool) :
    (listParams published mark).filter Draft.isFull = listParams published mark := by
  cases published <;> cases mark <;> decide

theorem flag_of_listParams {c : Call} {published mark : Bool}
    (h : c.params = listParams published mark) :
    c.flag "published" = published ∧ c.flag deleteMark = mark := by
  simp only [Call.flag, Call.param?, h]
  cases published <;> cases mark <;> decide

theorem leads_bucketFiles {d : Draft} {bucket : String} (hb : BucketName bucket)
    (hpath : d.path = FileBucket.path ++ ("/" ++ bucket))
    (htakes : (Route.bucketFiles bucket).takes d.method.name = true) :
    Leads d (.bucketFiles bucket) where
  path := by
    rw [hpath]
    simpa [FileBucket.path] using
      Unmarked.append (by decide : Unmarked "/files/".toList) hb.unreserved.unmarked
  arrives := by
    have hparts : d.path.toList = ["files".toList, bucket.toList].flatMap ('/' :: ·) := by
      rw [hpath]
      simp [FileBucket.path]
    intro path h
    rw [hparts] at h
    refine ⟨_, Route.ofPath?_bucketFiles (hb.unreserved.not_mem (by decide)) hb.full h, ?_⟩
    rw [Route.decoded, Route.decodePart_of_unreserved _ hb.unreserved]
    rfl
  takes := htakes

section
variable {fresh : Nat → Fresh} {c : Client Unit Backend} {now : Int} {b : Bucket}

theorem list_of_takes (hb : BucketName b.name) {published mark : Bool}
    (htakes : Takes fresh c now (Operation.listFiles b published mark).plan.steps) :
    let ms := Files.listing (c.site.backend.store.filesIn b.name) mark published
    (∀ m ∈ ms, (Json.obj m).isOrdered = true) → (∀ m ∈ ms, (Json.obj m).depth ≤ 125) →
      (FileBucket.list (Backend.engine fresh) now b published mark c).1
        = .success (Files.told b.name ms) := by
  intro ms hordered hdepth
  let d : Draft := { c.service.draft now with
    path := FileBucket.path ++ ("/" ++ b.name), params := listParams published mark }
  have hdraft : (c.service.draft now).applyAll (Operation.listFiles b published mark).plan.steps
      = d := by
    have hpublished : Draft.isFull ("published", "1") = true := by decide
    have hmark : Draft.isFull (deleteMark, "1") = true := by decide
    rw [Draft.applyAll_of_complete htakes.missing?]
    cases published <;> cases mark <;>
      simp [Operation.plan, Draft.Step.optionalParam, Draft.change, hpublished, hmark, d,
        listParams, Service.draft]
  have hleads : Leads d (.bucketFiles b.name) := leads_bucketFiles hb rfl rfl
  have husual : d.Usual := ⟨rfl, by simp [d, Service.draft], by simp [d, Service.draft]⟩
  obtain ⟨call, hcomes, hgate, houtcome, -⟩ :=
    request_of_takes htakes hdraft husual hleads.path b.timeout
  obtain ⟨raw, hraw, -⟩ := hcomes.arrives hleads
  have hparams : call.params = listParams published mark :=
    (hcomes.params htakes.atServer hleads.path hraw).trans (filter_listParams published mark)
  obtain ⟨hflag, hmark⟩ := flag_of_listParams hparams
  have hperform : (Route.bucketFiles b.name).perform c.site.backend.store
      (fresh c.site.backend.calls) call
        = .ok (.json 200 (.obj [("results", .arr (ms.map .obj))]), c.site.backend.store) := by
    rw [Route.perform, hcomes.method]
    change Files.list c.site.backend.store call b.name = _
    rw [Files.list, hflag, hmark]
  have hanswer : (c.site.backend.answer fresh call).1
      = .json 200 (.obj [("results", .arr (ms.map .obj))]) :=
    congrArg Prod.fst (hcomes.answer_of_perform hleads hgate hperform)
  rw [hanswer, Reply.classify_received (Reply.sendable_json (by decide) (by decide) _)
    (Nat.le_refl 200) (by decide : 200 < 300)] at houtcome
  have hlist : (FileBucket.list (Backend.engine fresh) now b published mark c).1
      = ((c.request (Backend.engine fresh) now
        (Operation.listFiles b published mark).plan.steps .plain b.timeout).1).map fun r =>
          (((r.jsonObject.get? "results").bind Json.arr?).getD []).filterMap fun item =>
            item.obj?.map (.ofObject b.name) := by
    rw [FileBucket.list, if_neg hb.full]
    rfl
  rw [hlist, houtcome, Outcome.map, Files.results_received hordered hdepth]

theorem list_of_recorded (hb : BucketName b.name) (h : c.site.backend.store.Recorded)
    (hflat : Files.Flat c.site.backend.store b.name 120) {mark : Bool}
    (htakes : Takes fresh c now (Operation.listFiles b false mark).plan.steps) :
    ∃ found, (FileBucket.list (Backend.engine fresh) now b false mark c).1 = .success found ∧
      Files.Lists c.site.backend.store b.name mark found := by
  have hmem : ∀ m ∈ Files.listing (c.site.backend.store.filesIn b.name) mark false,
      ∃ name file, c.site.backend.store.file? b.name name = some file ∧
        Files.Recorded name file ∧ file.metadata = m := by
    intro m hm
    rw [Files.listing_all] at hm
    obtain ⟨p, hp, rfl⟩ := List.mem_map.1 hm
    obtain ⟨hfile, hrecorded⟩ := Files.recorded_of_mem h (List.mem_filter.1 hp).1
    exact ⟨p.1, p.2, hfile, hrecorded, rfl⟩
  refine ⟨_, list_of_takes hb htakes (fun m hm => ?_) fun m hm => ?_, Files.lists_told h ..⟩
  · obtain ⟨name, file, -, hrecorded, rfl⟩ := hmem m hm
    exact hrecorded.shallow.ordered
  · obtain ⟨name, file, hfile, hrecorded, rfl⟩ := hmem m hm
    have hdepth := hrecorded.depth_le fun acl hacl => hflat name file acl hfile hacl
    omega

theorem list_published_of_recorded (hb : BucketName b.name) (h : c.site.backend.store.Recorded)
    {mark : Bool} (htakes : Takes fresh c now (Operation.listFiles b true mark).plan.steps) :
    (FileBucket.list (Backend.engine fresh) now b true mark c).1 = .success [] := by
  have hnone := Files.listing_published h b.name mark
  have hlist := list_of_takes hb htakes
  rw [hnone] at hlist
  exact hlist (fun m hm => by cases hm) fun m hm => by cases hm

end

/-- After any calls the metadata of every file describe it. A client that the server takes is told
of each file of a bucket that can be seen, as long as the access lists are not too deep, and of no
published ones. -/
theorem files_described_and_listed (fresh : Nat → Fresh) (calls : List Call) :
    let backend := Backend.answerAll fresh calls {}
    (∀ bucket name file, backend.store.file? bucket name = some file →
      Files.Describes name file) ∧
    ∀ (c : Client Unit Backend) (now : Int) (b : Bucket) (mark : Bool),
      c.site.backend = backend → BucketName b.name →
      (Files.Flat backend.store b.name 120 →
        Takes fresh c now (Operation.listFiles b false mark).plan.steps →
        ∃ found, (FileBucket.list (Backend.engine fresh) now b false mark c).1 = .success found ∧
          Files.Lists backend.store b.name mark found) ∧
      (Takes fresh c now (Operation.listFiles b true mark).plan.steps →
        (FileBucket.list (Backend.engine fresh) now b true mark c).1 = .success []) := by
  intro backend
  have hrecorded : backend.store.Recorded := recorded_answerAll recorded_empty calls
  refine ⟨fun bucket name file hfile => (hrecorded.each bucket name file hfile).toDescribes, ?_⟩
  intro c now b mark hbackend hb
  have hstore : c.site.backend.store.Recorded := hbackend ▸ hrecorded
  rw [← hbackend]
  exact ⟨fun hflat htakes => list_of_recorded hb hstore hflat htakes,
    fun htakes => list_published_of_recorded hb hstore htakes⟩

/-- Two files are uploaded, one gets new content and the other is marked as deleted. -/
theorem files_described_and_listed_of_marked :
    let headers : Pairs := [("X-Application-Id", "app-id"), ("X-Application-Key", "app-key"),
      ("Content-Type", "text/plain")]
    let calls : List Call := [
      ⟨"POST", "/1/tenant/files/t/b", "", headers ++ [("X-ACL", "\x7b\"r\":[0.1]\x7d")], [1, 2]⟩,
      ⟨"POST", "/1/tenant/files/t/a", "", headers, [3]⟩,
      ⟨"PUT", "/1/tenant/files/t/a", "", headers, [4, 5, 6]⟩,
      ⟨"DELETE", "/1/tenant/files/t/b", "deleteMark=1", headers, []⟩]
    let backend := Backend.answerAll numbered calls {}
    let service : Service Unit :=
      ⟨⟨"http://mock", "tenant", "app-id", "app-key", ""⟩, {}, {}, .new 1 1, 60⟩
    let c : Client Unit Backend := ⟨service, ⟨{}, backend⟩⟩
    let b : Bucket := ⟨"t", 5⟩
    (∃ file, backend.store.file? "t" "b" = some file ∧ Files.Describes "b" file) ∧
      (∃ found, (FileBucket.list (Backend.engine numbered) 0 b false false c).1 = .success found ∧
        found.map (fun m => (m.filename, m.length)) = [("a", 3)] ∧
        Files.Lists backend.store "t" false found) ∧
      (∃ found, (FileBucket.list (Backend.engine numbered) 0 b false true c).1 = .success found ∧
        found.map (fun m => (m.filename, m.length)) = [("a", 3), ("b", 2)] ∧
        Files.Lists backend.store "t" true found) ∧
      (FileBucket.list (Backend.engine numbered) 0 b true true c).1 = .success [] := by
  intro headers calls backend service c b
  obtain ⟨hdescribes, hlists⟩ := files_described_and_listed numbered calls
  have hb : BucketName b.name := ⟨by decide, by decide⟩
  have hserver : service.credentials.AtServer := by decide +kernel
  have htakes (published mark : Bool) :
      Takes numbered c 0 (Operation.listFiles b published mark).plan.steps := by
    refine takes_of_no_session hserver rfl rfl rfl ?_ nofun
    cases published <;> cases mark <;> decide +kernel
  have hflat : Files.Flat backend.store b.name 120 := by
    have hall : ∀ p ∈ backend.store.filesIn "t",
        ((p.2.metadata.get? Reserved.acl).all fun acl => decide (acl.depth ≤ 120)) = true := by
      decide +kernel
    intro name file acl hfile hacl
    have hp := hall _ (Keyed.mem_of_get? hfile)
    rw [hacl] at hp
    simpa using hp
  have hfile : (backend.store.file? "t" "b").isSome = true := by decide +kernel
  obtain ⟨file, hfile⟩ := Option.isSome_iff_exists.1 hfile
  obtain ⟨found, hfound, hseen⟩ := (hlists c 0 b false rfl hb).1 hflat (htakes false false)
  obtain ⟨all, hall, hmarked⟩ := (hlists c 0 b true rfl hb).1 hflat (htakes false true)
  refine ⟨⟨file, hfile, hdescribes "t" "b" file hfile⟩, ⟨found, hfound, ?_, hseen⟩,
    ⟨all, hall, ?_, hmarked⟩, (hlists c 0 b true rfl hb).2 (htakes true true)⟩
  · have hnames : ((FileBucket.list (Backend.engine numbered) 0 b false false c).1.value?.map
        fun ms => ms.map fun m => (m.filename, m.length)) = some [("a", 3)] := by decide +kernel
    rw [hfound] at hnames
    exact Option.some.inj hnames
  · have hnames : ((FileBucket.list (Backend.engine numbered) 0 b false true c).1.value?.map
        fun ms => ms.map fun m => (m.filename, m.length)) = some [("a", 3), ("b", 2)] := by
      decide +kernel
    rw [hall] at hnames
    exact Option.some.inj hnames

/-- The empty name has no character that is reserved, but no bucket has it. -/
theorem unnamed_bucket_is_not_listed :
    let service : Service Unit :=
      ⟨⟨"http://mock", "tenant", "app-id", "app-key", ""⟩, {}, {}, .new 1 1, 60⟩
    let c : Client Unit Backend := ⟨service, ⟨{}, Backend.answerAll numbered [] {}⟩⟩
    let b : Bucket := ⟨"", 5⟩
    Unreserved b.name ∧ Files.Flat c.site.backend.store b.name 120 ∧
      Takes numbered c 0 (Operation.listFiles b false false).plan.steps ∧
      (FileBucket.list (Backend.engine numbered) 0 b false false c).1 = .fatal .noBucket := by
  intro service c b
  have hserver : service.credentials.AtServer := by decide +kernel
  have hnone : Files.Flat c.site.backend.store b.name 120 := by
    intro name file acl hfile
    cases hfile
  exact ⟨by decide, hnone,
    takes_of_no_session hserver rfl rfl rfl (by decide +kernel) nofun, rfl⟩

end Server
end AppBackend
