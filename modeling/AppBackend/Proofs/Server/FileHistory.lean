import AppBackend.Proofs.Server.Delivery
import AppBackend.Proofs.Server.Locality

/-!
# Files over time

A file that a store offers, with its content, and what keeps it there: uploads leave the content
that they send, and calls about other entries leave what there was. Main statement:
`offers_of_keeps`.
-/

namespace AppBackend

/-! ### Drafts of files -/

/-- A text that can name a bucket, and stays as it is in a path. -/
structure BucketName (bucket : String) : Prop where
  full : bucket ≠ ""
  unreserved : Unreserved bucket

/-- The path of a file, after the tenant. -/
def filePath (bucket name : String) : String :=
  "/files" ++ ("/" ++ bucket ++ "/" ++ String.ofList (Percent.encode name))

theorem toList_filePath (bucket name : String) :
    (filePath bucket name).toList
      = ["files".toList, bucket.toList, Percent.encode name].flatMap ('/' :: ·) := by
  simp [filePath, String.toList_append]

namespace Draft

def Step.appends : Step → Bool
  | appendHeader .. | appendParam .. => true
  | _ => false

theorem foldl_appends (d : Draft) {ss : List Step} (h : ∀ s ∈ ss, s.appends = true) :
    ∃ params headers, ss.foldl change d = { d with params, headers } := by
  induction ss generalizing d with
  | nil => exact ⟨d.params, d.headers, rfl⟩
  | cons s ss ih =>
    have hrest := fun e : Draft => ih e fun t ht => h t (List.mem_cons_of_mem _ ht)
    cases s with
    | appendHeader name value =>
      rw [List.foldl_cons, change_appendHeader]
      exact hrest _
    | appendParam key value =>
      rw [List.foldl_cons, change_appendParam]
      exact hrest _
    | _ => cases h _ (List.mem_cons_self ..)

end Draft

namespace Server

theorem leads_file {d : Draft} {bucket name : String} (hb : BucketName bucket)
    (hname : name ≠ "") (hpath : d.path = filePath bucket name)
    (htakes : (Route.file bucket name).takes d.method.name = true) :
    Leads d (.file bucket name) where
  path := by
    rw [hpath]
    exact unmarked_filePath (b := ⟨bucket, 0⟩) (by simpa using hb.unreserved.unmarked) name
  arrives := by
    have hencoded : Percent.encode name ≠ [] := by
      intro he
      have hpart := Route.decodePart_encode "name" name
      have hempty := Route.decodePart_of_unreserved "name" (by decide : Unreserved "")
      rw [he] at hpart
      exact hname (Except.ok.inj (hpart.symm.trans hempty))
    intro path h
    rw [hpath, toList_filePath] at h
    refine ⟨_, Route.ofPath?_file (hb.unreserved.not_mem (by decide)) hb.full
      (Percent.not_mem_encode (by decide) (by decide) name) hencoded h, ?_⟩
    rw [Route.decoded, Route.decodePart_of_unreserved _ hb.unreserved, Route.decodePart_encode]
    rfl
  takes := htakes

/-! ### Files that are offered -/

/-- A file that can be read, with a content that an upload can have. -/
structure Store.Offers (s : Store) (bucket name : String) (content : Bytes) : Prop where
  stored : ∃ m, s.file? bucket name = some ⟨m, content⟩ ∧ isDeleted m = false
  fits : content.length ≤ Call.maxBody

theorem Call.fits_of_content {c : Call} {content : Bytes} (h : c.content = .ok content) :
    c.body.length ≤ maxBody := by
  unfold Call.content at h
  split at h
  · cases h
  · rename_i hfits
    exact Nat.le_of_not_lt hfits

theorem Store.file?_of_held? {s s' : Store} {bucket name : String}
    (h : s'.held? (.file bucket name) = s.held? (.file bucket name)) :
    s'.file? bucket name = s.file? bucket name :=
  Option.map_injective (fun _ _ => Held.file.inj) h

namespace Files

section
variable {s s' : Store} {f : Fresh} {c : Call} {bucket name : String} {reply : Reply}

theorem isDeleted_newMetadata (f : Fresh) (name contentType : String) (length : Nat)
    (cacheDisabled : Bool) (acl : Json) :
    isDeleted (newMetadata f name contentType length cacheDisabled acl) = false := by
  simp [isDeleted, newMetadata, Keyed.ofList, Keyed.get?_insert, Keyed.get?, metaEtag, fileEtag,
    Reserved.createdAt, Reserved.updatedAt, Reserved.acl, Reserved.deleted]

theorem isDeleted_withContent (f : Fresh) (m : Json.Fields) (contentType : Option String)
    (length : Nat) : isDeleted (withContent f m contentType length) = isDeleted m := by
  simp only [withContent]
  rw [isDeleted_insert_of_ne _ _ (by decide), isDeleted_insert_of_ne _ _ (by decide),
    isDeleted_insert_of_ne _ _ (by decide)]
  cases contentType with
  | none => rfl
  | some t => exact isDeleted_insert_of_ne _ _ (by decide)

theorem offers_of_create (h : create s f c bucket name = .ok (reply, s')) :
    s'.Offers bucket name c.body := by
  obtain ⟨content, hcontent, h⟩ := exists_of_bind_eq_ok h
  obtain rfl := Call.eq_of_content hcontent
  refine ⟨?_, Call.fits_of_content hcontent⟩
  split at h
  · obtain ⟨acl, -, h⟩ := exists_of_bind_eq_ok h
    split at h
    · cases h
    obtain rfl := store_of_ok h
    exact ⟨_, (Store.file?_putFile ..).trans (if_pos ⟨rfl, rfl⟩), isDeleted_newMetadata ..⟩
  · cases h

/-- New content does not hide a file. -/
theorem offers_of_update {old : Bytes} (hold : s.Offers bucket name old)
    (h : update s f c bucket name = .ok (reply, s')) : s'.Offers bucket name c.body := by
  obtain ⟨m, hfile, hseen⟩ := hold.stored
  obtain ⟨content, hcontent, h⟩ := exists_of_bind_eq_ok h
  obtain ⟨file, hlook, h⟩ := exists_of_bind_eq_ok h
  obtain ⟨u, -, h⟩ := exists_of_bind_eq_ok h
  obtain rfl := Call.eq_of_content hcontent
  obtain rfl := store_of_ok h
  have hfound : file = ⟨m, old⟩ := by
    rw [lookUp, hfile] at hlook
    exact (Except.ok.inj hlook).symm
  refine ⟨⟨_, (Store.file?_putFile ..).trans (if_pos ⟨rfl, rfl⟩), ?_⟩,
    Call.fits_of_content hcontent⟩
  rw [hfound, isDeleted_withContent]
  exact hseen

end

end Files

/-! ### Uploads -/

section
variable {fresh : Nat → Fresh} {c : Client Unit Backend} {now : Int} {b : Bucket}
  {name localPath : String} {content : Bytes}

/-- An upload that succeeds sends the whole file to its place. -/
theorem perform_of_upload (hserver : c.service.credentials.AtServer) (hb : BucketName b.name)
    (hname : name ≠ "") (hlocal : c.site.disk.read? localPath = some content)
    {o : Operation} (hjob : o.plan.job = .upload localPath) {m : Method} {rest : List Draft.Step}
    (hsteps : o.plan.steps = FileBucket.target m b name ++ rest)
    (hrest : ∀ s ∈ rest, s.appends = true)
    (htakes : (Route.file b.name name).takes m.name = true)
    (h : (o.run (Backend.engine fresh) now c).1.value?.isSome = true) :
    ∃ call reply s', call.method = m.name ∧ call.body = content ∧
      (Route.file b.name name).perform c.site.backend.store (fresh c.site.backend.calls) call
        = .ok (reply, s') ∧
      (o.run (Backend.engine fresh) now c).2.site.backend.store = s' := by
  obtain ⟨response, hr, hafter⟩ := Operation.request_of_success h
  have hmissing := Client.missing?_of_request_success hr
  rw [hjob] at hr hafter
  obtain ⟨params, headers, happends⟩ := Draft.foldl_appends { c.service.draft now with
    method := m, path := filePath b.name name } hrest
  have hdraft : (c.service.draft now).applyAll o.plan.steps = { c.service.draft now with
      method := m, path := filePath b.name name, params := params, headers := headers } := by
    rw [Draft.applyAll_of_complete hmissing, hsteps, Draft.foldl_file, ← happends]
    rfl
  obtain ⟨sent, call, reply, s', hfile, hcomes, hp, hbackend⟩ :=
    perform_of_upload_success hserver hdraft (leads_file hb hname rfl htakes) hr
  refine ⟨call, reply, s', hcomes.method, ?_, hp, ?_⟩
  · rw [Disk.read?, hfile] at hlocal
    rw [hcomes.body]
    exact Option.some.inj hlocal
  · rw [hafter, hbackend]

section
variable (hserver : c.service.credentials.AtServer) (hb : BucketName b.name)
  (hname : name ≠ "") (hlocal : c.site.disk.read? localPath = some content)
include hserver hb hname hlocal

theorem offers_of_uploadNew {contentType acl : String} {cacheDisabled : Bool} {m : FileMetadata}
    (h : (FileBucket.uploadNew (Backend.engine fresh) now b name localPath contentType acl
      cacheDisabled c).1 = .success m) :
    (FileBucket.uploadNew (Backend.engine fresh) now b name localPath contentType acl cacheDisabled
      c).2.site.backend.store.Offers b.name name content := by
  let o : Operation := .uploadNewFile b name localPath contentType acl cacheDisabled
  have hrun : (o.run (Backend.engine fresh) now c).1.value?.isSome = true :=
    Operation.isSome_forget_of_success h
  have hrest : ∀ s ∈ [Draft.Step.appendHeader HeaderName.contentType contentType,
        .appendHeader HeaderName.acl acl]
      ++ Draft.Step.optionalParam cacheDisabled "cacheDisabled" "true", s.appends = true := by
    cases cacheDisabled <;> simp [Draft.Step.appends, Draft.Step.optionalParam]
  obtain ⟨call, reply, s', hmethod, hbody, hp, hafter⟩ := perform_of_upload hserver hb hname
    hlocal (o := o) rfl (m := .post) (List.append_assoc ..) hrest rfl hrun
  have hcreate : Files.create c.site.backend.store (fresh c.site.backend.calls) call b.name name
      = .ok (reply, s') := by
    rw [Route.perform, hmethod] at hp
    exact hp
  have hoffers := Files.offers_of_create hcreate
  rw [hbody, ← hafter] at hoffers
  exact hoffers

theorem offers_of_uploadUpdate {old : Bytes} (hold : c.site.backend.store.Offers b.name name old)
    {contentType metaEtag fileEtag : String} {m : FileMetadata}
    (h : (FileBucket.uploadUpdate (Backend.engine fresh) now b name localPath contentType metaEtag
      fileEtag c).1 = .success m) :
    (FileBucket.uploadUpdate (Backend.engine fresh) now b name localPath contentType metaEtag
      fileEtag c).2.site.backend.store.Offers b.name name content := by
  let o : Operation := .uploadFile b name localPath contentType metaEtag fileEtag
  have hrun : (o.run (Backend.engine fresh) now c).1.value?.isSome = true :=
    Operation.isSome_forget_of_success h
  have hrest : ∀ s ∈ Draft.Step.appendHeader HeaderName.contentType contentType
      :: FileBucket.etagParams metaEtag fileEtag, s.appends = true := by
    simp [Draft.Step.appends, FileBucket.etagParams]
  obtain ⟨call, reply, s', hmethod, hbody, hp, hafter⟩ := perform_of_upload hserver hb hname
    hlocal (o := o) rfl (m := .put) rfl hrest rfl hrun
  have hupdate : Files.update c.site.backend.store (fresh c.site.backend.calls) call b.name name
      = .ok (reply, s') := by
    rw [Route.perform, hmethod] at hp
    exact hp
  have hoffers := Files.offers_of_update hold hupdate
  rw [hbody, ← hafter] at hoffers
  exact hoffers

end

end

/-! ### Histories -/

/-- Servers on which a file has a content: because it was there, because a client uploaded it as a
new file, or because a client put it in place of what the file had. Calls about other entries may
come in between. -/
inductive Keeps (fresh : Nat → Fresh) (bucket name : String) : Bytes → Backend → Prop where
  | found {content : Bytes} {backend : Backend} (h : backend.store.Offers bucket name content) :
    Keeps fresh bucket name content backend
  | uploaded {c : Client Unit Backend} {now timeout : Int} {localPath contentType acl : String}
      {cacheDisabled : Bool} {content : Bytes} {m : FileMetadata}
      (hserver : c.service.credentials.AtServer)
      (hlocal : c.site.disk.read? localPath = some content)
      (h : (FileBucket.uploadNew (Backend.engine fresh) now ⟨bucket, timeout⟩ name localPath
        contentType acl cacheDisabled c).1 = .success m) :
    Keeps fresh bucket name content (FileBucket.uploadNew (Backend.engine fresh) now
      ⟨bucket, timeout⟩ name localPath contentType acl cacheDisabled c).2.site.backend
  | updated {c : Client Unit Backend} {old : Bytes}
      (hold : Keeps fresh bucket name old c.site.backend) {now timeout : Int}
      {localPath contentType metaEtag fileEtag : String} {content : Bytes} {m : FileMetadata}
      (hserver : c.service.credentials.AtServer)
      (hlocal : c.site.disk.read? localPath = some content)
      (h : (FileBucket.uploadUpdate (Backend.engine fresh) now ⟨bucket, timeout⟩ name localPath
        contentType metaEtag fileEtag c).1 = .success m) :
    Keeps fresh bucket name content (FileBucket.uploadUpdate (Backend.engine fresh) now
      ⟨bucket, timeout⟩ name localPath contentType metaEtag fileEtag c).2.site.backend
  | elsewhere {content : Bytes} {backend : Backend} (h : Keeps fresh bucket name content backend)
      {call : Call} (hcall : call.entry? ≠ some (.file, bucket, name)) :
    Keeps fresh bucket name content (backend.answer fresh call).2

theorem Keeps.answerAll {fresh : Nat → Fresh} {bucket name : String} {content : Bytes}
    {backend : Backend} (h : Keeps fresh bucket name content backend) {calls : List Call}
    (hcalls : ∀ call ∈ calls, call.entry? ≠ some (.file, bucket, name)) :
    Keeps fresh bucket name content (backend.answerAll fresh calls) := by
  induction calls generalizing backend with
  | nil => exact h
  | cons call calls ih =>
    rw [Backend.answerAll, List.foldl_cons, ← Backend.answerAll]
    exact ih (h.elsewhere (hcalls call (List.mem_cons_self ..)))
      fun d hd => hcalls d (List.mem_cons_of_mem _ hd)

/-- A call about another entry leaves a file as it is. -/
theorem Store.Offers.answer {fresh : Nat → Fresh} {backend : Backend} {bucket name : String}
    {content : Bytes} (h : backend.store.Offers bucket name content) {call : Call}
    (hcall : call.entry? ≠ some (.file, bucket, name)) :
    (backend.answer fresh call).2.store.Offers bucket name content := by
  have hplace : call.place? (fresh backend.calls) ≠ some (.file bucket name) :=
    place?_ne_of_entry? hcall nofun rfl
  have hsame : (backend.answer fresh call).2.store.file? bucket name
      = backend.store.file? bucket name := Store.file?_of_held? (held?_answer hplace)
  refine ⟨?_, h.fits⟩
  rw [hsame]
  exact h.stored

/-- As long as a server keeps a file, the file can be read with its content. -/
theorem offers_of_keeps {fresh : Nat → Fresh} {bucket name : String} (hb : BucketName bucket)
    (hname : name ≠ "") {content : Bytes} {backend : Backend}
    (h : Keeps fresh bucket name content backend) : backend.store.Offers bucket name content := by
  induction h with
  | found h => exact h
  | uploaded hserver hlocal h => exact offers_of_uploadNew hserver hb hname hlocal h
  | updated _ hserver hlocal h hold =>
    exact offers_of_uploadUpdate hserver hb hname hlocal hold h
  | elsewhere _ hcall h => exact h.answer hcall

end Server
end AppBackend
