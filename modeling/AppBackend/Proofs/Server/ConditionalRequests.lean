import AppBackend.Proofs.Server.Changes
import AppBackend.Proofs.Server.Parameters

/-!
# Conditional requests

The operations that ask the server for etags, and the calls that come of them. An operation changes
the server by one call at most. Main statement: `asks_of_sent`, the call of an operation asks for
the etags that the operation was given, if what the operation puts into its target as it is does
not end the path.
-/

namespace AppBackend

open Server

/-! ### Operations with etags -/

namespace Operation

/-- The etags that an operation is given, in the order of the keys. An object without an id is made
and not written. -/
def condition? : Operation → Option (Kind × List String)
  | saveObject _ object _ => if object.id = "" then none else some (.object, [object.etag])
  | updateObject _ _ etag _ _ => some (.object, [etag])
  | deleteObject _ _ etag _ => some (.object, [etag])
  | uploadFile _ _ _ _ metaEtag fileEtag => some (.file, [metaEtag, fileEtag])
  | uploadFileOf _ m _ => some (.file, [m.metaEtag, m.fileEtag])
  | deleteFile _ _ metaEtag fileEtag _ => some (.file, [metaEtag, fileEtag])
  | _ => none

/-- The texts that an operation with etags puts into the path of its target as they are. -/
def spelled : Operation → List String
  | saveObject b object _ => [b.name, object.id]
  | updateObject b id _ _ _ => [b.name, id]
  | deleteObject b id _ _ => [b.name, id]
  | uploadFile b _ _ _ _ _ => [b.name]
  | uploadFileOf b _ _ => [b.name]
  | deleteFile b _ _ _ _ => [b.name]
  | _ => []

end Operation

namespace Draft

/-- A draft of a write that asks for etags, and whose path goes up to its parameters. -/
structure Carries (d : Draft) (kind : Kind) (expected : List String) : Prop where
  writes : d.method = .put ∨ d.method = .delete
  path : Unmarked d.path.toList
  params : kind.etagKeys.map (Form.get? (d.params.filter isFull)) = expected.map some

theorem foldl_mark (d : Draft) (mark : Bool) :
    (Step.optionalParam mark deleteMark "1").foldl change d =
      { d with params := d.params ++ if mark then [(deleteMark, "1")] else [] } := by
  have hfull : isFull (deleteMark, "1") = true := by decide
  cases mark <;> simp [Step.optionalParam, change, hfull]

theorem foldl_object (d : Draft) (m : Method) (b : Bucket) (id : String) {etag : String}
    (h : etag ≠ "") (rest : List Step) :
    (ObjectBucket.target m [b.name, id] ++ ObjectBucket.etagParam etag :: rest).foldl change d =
      rest.foldl change { d with
        method := m
        path := "/objects" ++ ("/" ++ b.name ++ ("/" ++ id))
        params := d.params ++ [(Reserved.etag, etag)] } := by
  have hfull : isFull (Reserved.etag, etag) = true := by simp [isFull, Reserved.etag, h]
  simp [ObjectBucket.target, ObjectBucket.etagParam, ObjectBucket.path, change, hfull, String.join]

theorem foldl_file (d : Draft) (m : Method) (b : Bucket) (name : String) (rest : List Step) :
    (FileBucket.target m b name ++ rest).foldl change d =
      rest.foldl change { d with
        method := m
        path := "/files" ++ ("/" ++ b.name ++ "/" ++ String.ofList (Percent.encode name)) } := by
  simp [FileBucket.target, FileBucket.path, change]

theorem foldl_fileEtags (d : Draft) {metaEtag fileEtag : String} (hm : metaEtag ≠ "")
    (hf : fileEtag ≠ "") (rest : List Step) :
    (FileBucket.etagParams metaEtag fileEtag ++ rest).foldl change d =
      rest.foldl change
        { d with params := d.params ++ [(Files.metaEtag, metaEtag), (Files.fileEtag, fileEtag)] }
        := by
  have hmeta : isFull (FileBucket.metaEtagKey, metaEtag) = true := by
    simp [isFull, FileBucket.metaEtagKey, hm]
  have hfile : isFull (FileBucket.fileEtagKey, fileEtag) = true := by
    simp [isFull, FileBucket.fileEtagKey, hf]
  simp only [FileBucket.etagParams, List.cons_append, List.nil_append, List.foldl_cons, change,
    hmeta, hfile, if_true, List.append_assoc]
  rfl

theorem Carries.object {d : Draft} {etag : String} (h : etag ≠ "") (mark : Bool)
    (hm : d.method = .put ∨ d.method = .delete) (hpath : Unmarked d.path.toList)
    (hp : d.params = [(Reserved.etag, etag)] ++ if mark then [(deleteMark, "1")] else []) :
    d.Carries .object [etag] := by
  refine ⟨hm, hpath, ?_⟩
  rw [hp]
  cases mark <;>
    simp [Kind.etagKeys, isFull, Form.get?, Reserved.etag, deleteMark, h]

theorem Carries.file {d : Draft} {metaEtag fileEtag : String} (hmeta : metaEtag ≠ "")
    (hfile : fileEtag ≠ "") (mark : Bool) (hm : d.method = .put ∨ d.method = .delete)
    (hpath : Unmarked d.path.toList)
    (hp : d.params = [(Files.metaEtag, metaEtag), (Files.fileEtag, fileEtag)]
      ++ if mark then [(deleteMark, "1")] else []) :
    d.Carries .file [metaEtag, fileEtag] := by
  refine ⟨hm, hpath, ?_⟩
  rw [hp]
  cases mark <;>
    simp [Kind.etagKeys, isFull, Form.get?, Files.metaEtag, Files.fileEtag, deleteMark, hmeta,
      hfile]

theorem unmarked_place {d : Draft} (he : Unmarked d.credentials.endpoint.toList)
    (ht : Unmarked d.credentials.tenant.toList) (hp : Unmarked d.path.toList) :
    Unmarked d.place := by
  have hslash : Unmarked (if d.credentials.endpoint.toList.getLast? = some '/' then []
      else ['/']) := by
    split <;> decide
  exact (((he.append hslash).append (by decide)).append ht).append hp

end Draft

/-! ### What is sent -/

theorem unmarked_append (s t : String) (hs : Unmarked s.toList) (ht : Unmarked t.toList) :
    Unmarked (s ++ t).toList := by
  rw [String.toList_append]
  exact hs.append ht

theorem unmarked_objectPath {b : Bucket} {id : String}
    (h : ∀ t ∈ [b.name, id], Unmarked t.toList) :
    Unmarked ("/objects" ++ ("/" ++ b.name ++ ("/" ++ id))).toList := by
  have hslash : Unmarked "/".toList := by decide
  have hb := unmarked_append _ _ hslash (h b.name (by simp))
  have hi := unmarked_append _ _ hslash (h id (by simp))
  exact unmarked_append _ _ (by decide) (unmarked_append _ _ hb hi)

theorem unmarked_filePath {b : Bucket} (h : ∀ t ∈ [b.name], Unmarked t.toList) (name : String) :
    Unmarked
      ("/files" ++ ("/" ++ b.name ++ "/" ++ String.ofList (Percent.encode name))).toList := by
  have hslash : Unmarked "/".toList := by decide
  have hb := unmarked_append _ _ hslash (h b.name (by simp))
  have hn : Unmarked (String.ofList (Percent.encode name)).toList := by
    rw [String.toList_ofList]
    exact unmarked_encode name
  exact unmarked_append _ _ (by decide)
    (unmarked_append _ _ (unmarked_append _ _ hb hslash) hn)

theorem carries_upload {d : Draft} (hd : d.params = []) {b : Bucket} (name localPath : String)
    (contentType : String) {metaEtag fileEtag : String} (hm : metaEtag ≠ "") (hf : fileEtag ≠ "")
    (hb : ∀ t ∈ [b.name], Unmarked t.toList) :
    ((Operation.plan.uploadPlan b name localPath contentType metaEtag fileEtag).steps.foldl
      Draft.change d).Carries .file [metaEtag, fileEtag] := by
  have hetags := Draft.foldl_fileEtags { d with
    method := .put
    path := "/files" ++ ("/" ++ b.name ++ "/" ++ String.ofList (Percent.encode name))
    headers := d.headers ++ [(HeaderName.contentType, contentType)].filter Draft.isFull } hm hf []
  rw [List.append_nil] at hetags
  simp only [Operation.plan.uploadPlan, Draft.foldl_file, List.foldl_cons,
    Draft.change_appendHeader, hetags, List.foldl_nil]
  exact .file hm hf false (.inl rfl) (unmarked_filePath hb name) (by simp [hd])

/-- What an operation with etags makes of a draft without parameters. -/
theorem Operation.carries_of_condition? {o : Operation} {kind : Kind} {expected : List String}
    (hc : o.condition? = some (kind, expected)) (hne : ∀ e ∈ expected, e ≠ "")
    (hs : ∀ t ∈ o.spelled, Unmarked t.toList) {d : Draft} (hd : d.params = []) :
    (o.plan.steps.foldl Draft.change d).Carries kind expected := by
  cases o with
  | saveObject b object withAcl =>
    simp only [condition?] at hc
    split at hc
    · cases hc
    rename_i hid
    cases hc
    have hetag := hne object.etag (by simp)
    simp only [plan, if_neg hid, Draft.foldl_object d .put b object.id hetag,
      Draft.foldl_jsonBody]
    exact .object hetag false (.inl rfl) (unmarked_objectPath hs) (by simp [hd])
  | updateObject b id etag data acl =>
    cases hc
    have hetag := hne etag (by simp)
    simp only [plan, Draft.foldl_object d .put b id hetag, Draft.foldl_jsonBody]
    exact .object hetag false (.inl rfl) (unmarked_objectPath hs) (by simp [hd])
  | deleteObject b id etag mark =>
    cases hc
    have hetag := hne etag (by simp)
    simp only [plan, Draft.foldl_object d .delete b id hetag, Draft.foldl_mark]
    exact .object hetag mark (.inr rfl) (unmarked_objectPath hs) (by simp [hd])
  | uploadFile b name localPath contentType metaEtag fileEtag =>
    cases hc
    exact carries_upload hd name localPath contentType (hne _ (by simp)) (hne _ (by simp)) hs
  | uploadFileOf b m localPath =>
    cases hc
    exact carries_upload hd m.filename localPath m.contentType (hne _ (by simp))
      (hne _ (by simp)) hs
  | deleteFile b name metaEtag fileEtag mark =>
    cases hc
    have hm := hne metaEtag (by simp)
    have hf := hne fileEtag (by simp)
    simp only [plan, List.append_assoc, Draft.foldl_file, Draft.foldl_fileEtags _ hm hf,
      Draft.foldl_mark]
    exact .file hm hf mark (.inr rfl) (unmarked_filePath hs name) (by simp [hd])
  | getObject b id mark => cases hc
  | queryObjects b params withCount => cases hc
  | downloadFile b name localPath => cases hc
  | uploadNewFile b name localPath contentType acl cacheDisabled => cases hc
  | listFiles b published mark => cases hc
  | callGateway g body => cases hc

/-! ### What arrives -/

namespace Server

/-- A call asks for these etags, in the order of the keys. -/
def Asks (c : Call) (kind : Kind) (expected : List String) : Prop :=
  kind.etagKeys.map c.param? = expected.map some

instance (c : Call) (kind : Kind) (expected : List String) : Decidable (Asks c kind expected) :=
  inferInstanceAs (Decidable (kind.etagKeys.map c.param? = expected.map some))

/-- A backend is left alone, or answers one call that has the target and the method of a request. -/
def OneCall (fresh : Nat → Fresh) (r : Request) (b b' : Backend) : Prop :=
  b' = b ∨ ∃ t c, Backend.callOf? t = some c ∧ t.request.url = r.url ∧
    t.request.method = r.method ∧ b' = (b.answer fresh c).2

section
variable (fresh : Nat → Fresh)

theorem oneCall_perform (x : Executor Unit) (t : Transfer) (s : Site Backend) :
    OneCall fresh t.request s.backend
      (Executor.perform (Backend.engine fresh) x t s).2.2.backend := by
  cases ht : t.isReadable with
  | false =>
    simp only [Executor.perform, Backend.perform_of_unreadable ht]
    exact Or.inl rfl
  | true =>
    simp only [Executor.perform, Backend.perform_of_readable ht]
    cases hc : Backend.callOf? t with
    | none => exact Or.inl rfl
    | some c => exact Or.inr ⟨t, c, hc, rfl, rfl, rfl⟩

theorem oneCall_run (x : Executor Unit) (job : Job) (r : Request) (timeout : Int)
    (s : Site Backend) :
    OneCall fresh r s.backend (x.run (Backend.engine fresh) job r timeout s).2.2.backend := by
  cases job with
  | plain => exact oneCall_perform fresh x ⟨r, effectiveTimeout timeout, none⟩ s
  | upload path =>
    simp only [Executor.run, Executor.runUpload]
    split
    · exact Or.inl rfl
    · exact Or.inl rfl
    · rename_i node _ _
      -- the header with the length is not part of what is kept of the request
      exact oneCall_perform fresh x ⟨Executor.withLength r (Upload.ofNode node).length,
        effectiveTimeout timeout, some (.ofNode node)⟩ s
  | download path =>
    simp only [Executor.run, Executor.runDownload]
    split
    · exact Or.inl rfl
    · rename_i destination disk _
      split
      · exact oneCall_perform fresh x ⟨r, effectiveTimeout timeout, none⟩ { s with disk }
      · exact Or.inl rfl

theorem oneCall_operation (service : Service Unit) (disk : Disk) (b : Backend) (now : Int)
    (o : Operation) :
    (o.run (Backend.engine fresh) now ⟨service, ⟨disk, b⟩⟩).2.site.backend = b ∨
      (service.draft now).missing? = none ∧
        OneCall fresh ((service.draft now).applyAll o.plan.steps).build b
          (o.run (Backend.engine fresh) now ⟨service, ⟨disk, b⟩⟩).2.site.backend := by
  rw [o.run_eq_plan]
  unfold Operation.forget Plan.run
  cases o.plan.refused? with
  | some f => exact Or.inl rfl
  | none =>
    dsimp only
    obtain ⟨f, hf⟩ | ⟨hm, x, seconds, -, hsite⟩ := Client.request_cases (Backend.engine fresh) now
      o.plan.steps o.plan.job o.plan.timeout ⟨service, ⟨disk, b⟩⟩
    · rw [hf]
      exact Or.inl rfl
    · rw [hsite]
      exact Or.inr ⟨hm, oneCall_run fresh x o.plan.job _ seconds ⟨disk, b⟩⟩

end

/-- The call of an operation with etags is a write that asks for them. -/
theorem asks_of_sent {service : Service Unit} {now : Int} {o : Operation} {kind : Kind}
    {expected : List String} {t : Transfer} {c : Call} {r : Route}
    (hc : o.condition? = some (kind, expected)) (hne : ∀ e ∈ expected, e ≠ "")
    (hs : ∀ t ∈ service.credentials.endpoint :: service.credentials.tenant :: o.spelled,
      Unmarked t.toList)
    (hm : (service.draft now).missing? = none) (hcall : Backend.callOf? t = some c)
    (hurl : t.request.url = ((service.draft now).applyAll o.plan.steps).url)
    (hmethod : t.request.method = ((service.draft now).applyAll o.plan.steps).method)
    (hr : Route.ofPath? c.path = some r) : c.isWrite ∧ Asks c kind expected := by
  have hcarries := Operation.carries_of_condition? (d := service.draft now) hc hne
    (fun t ht => hs t (List.mem_cons_of_mem _ (List.mem_cons_of_mem _ ht))) rfl
  rw [← Draft.applyAll_of_complete hm] at hcarries
  generalize hd : (service.draft now).applyAll o.plan.steps = d at hurl hmethod hcarries
  have hcredentials : d.credentials = service.credentials := by
    rw [← hd, Draft.credentials_applyAll]
    rfl
  have hplace : Unmarked d.place := by
    refine Draft.unmarked_place ?_ ?_ hcarries.path
    · rw [hcredentials]
      exact hs _ (List.mem_cons_self ..)
    · rw [hcredentials]
      exact hs _ (List.mem_cons_of_mem _ (List.mem_cons_self ..))
  have hparams : c.param? = Form.get? (d.params.filter Draft.isFull) := by
    funext key
    rw [Call.param?, params_of_sent hplace hurl hcall hr]
  refine ⟨?_, ?_⟩
  · rw [Call.isWrite, (callOf?_spec hcall).1, hmethod]
    rcases hcarries.writes with h | h
    · exact Or.inl (by rw [h]; rfl)
    · exact Or.inr (by rw [h]; rfl)
  · rw [Asks, hparams]
    exact hcarries.params

end Server
end AppBackend
