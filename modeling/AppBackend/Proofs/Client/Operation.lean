import AppBackend.Client.FileBucket
import AppBackend.Client.Gateway

/-!
# Operations

The operations of buckets and gateways as data. Each has a plan: the failure of its arguments, if
they have one, and else one request. Main statement: `Operation.run_eq_plan`, an operation is its
plan carried out; and `Operation.session_run`, none touches the session.
-/

namespace AppBackend

variable {ε ω : Type}

/-- What an operation does with a client: it refuses its arguments, or it makes one request. -/
structure Plan where
  /-- The first check that the arguments fail. -/
  refused? : Option Failure
  steps : List Draft.Step
  job : Job
  timeout : Int

def Plan.run (e : Engine ε ω) (now : Int) (c : Client ε ω) (p : Plan) :
    Outcome Response × Client ε ω :=
  match p.refused? with
  | some f => (.fatal f, c)
  | none => c.request e now p.steps p.job p.timeout

inductive Operation where
  | getObject (b : Bucket) (id : String) (mark : Bool)
  | queryObjects (b : Bucket) (params : Pairs) (withCount : Bool)
  | saveObject (b : Bucket) (object : StoredObject) (withAcl : Bool)
  | updateObject (b : Bucket) (id etag : String) (data : Json.Fields) (acl : Option Json)
  | deleteObject (b : Bucket) (id etag : String) (mark : Bool)
  | downloadFile (b : Bucket) (name localPath : String)
  | uploadNewFile (b : Bucket) (name localPath contentType acl : String) (cacheDisabled : Bool)
  | uploadFile (b : Bucket) (name localPath contentType metaEtag fileEtag : String)
  | uploadFileOf (b : Bucket) (m : FileMetadata) (localPath : String)
  | deleteFile (b : Bucket) (name metaEtag fileEtag : String) (mark : Bool)
  | listFiles (b : Bucket) (published mark : Bool)
  | callGateway (g : Gateway) (body : Bytes)

namespace Operation

def forget {α : Type} (r : Outcome α × Client ε ω) : Outcome Unit × Client ε ω :=
  (r.1.map fun _ => (), r.2)

def run (e : Engine ε ω) (now : Int) (c : Client ε ω) : Operation → Outcome Unit × Client ε ω
  | getObject b id mark => forget (ObjectBucket.get e now b id mark c)
  | queryObjects b params withCount => forget (ObjectBucket.query e now b params withCount c)
  | saveObject b object withAcl => forget (ObjectBucket.save e now b object withAcl c)
  | updateObject b id etag data acl => forget (ObjectBucket.update e now b id etag data acl c)
  | deleteObject b id etag mark => forget (ObjectBucket.delete e now b id etag mark c)
  | downloadFile b name localPath => forget (FileBucket.download e now b name localPath c)
  | uploadNewFile b name localPath contentType acl cacheDisabled =>
    forget (FileBucket.uploadNew e now b name localPath contentType acl cacheDisabled c)
  | uploadFile b name localPath contentType metaEtag fileEtag =>
    forget (FileBucket.uploadUpdate e now b name localPath contentType metaEtag fileEtag c)
  | uploadFileOf b m localPath => forget (FileBucket.uploadUpdateOf e now b m localPath c)
  | deleteFile b name metaEtag fileEtag mark =>
    forget (FileBucket.delete e now b name metaEtag fileEtag mark c)
  | listFiles b published mark => forget (FileBucket.list e now b published mark c)
  | callGateway g body => forget (g.call e now body c)

/-! ### Plans -/

def firstFailure : List (Bool × Failure) → Option Failure
  | [] => none
  | (holds, f) :: rest => if holds then some f else firstFailure rest

open ObjectBucket in
/-- The checks in their order, and the request. -/
def plan : Operation → Plan
  | getObject b id mark =>
    ⟨firstFailure [(id == "", .invalidArgument), (b.name == "", .noBucket)],
      target .get [b.name, id] ++ Draft.Step.optionalParam mark deleteMark "1", .plain, b.timeout⟩
  | queryObjects b pairs withCount =>
    ⟨firstFailure [(b.name == "", .noBucket)],
      target .get [b.name] ++ [.params (pairs ++ if withCount then [("count", "1")] else [])],
      .plain, b.timeout⟩
  | saveObject b object withAcl =>
    ⟨firstFailure [(b.name == "", .noBucket)],
      if object.id = "" then target .post [b.name] ++ jsonBody (object.creation withAcl)
      else target .put [b.name, object.id] ++ etagParam object.etag :: jsonBody object.replacement,
      .plain, b.timeout⟩
  | updateObject b id etag data acl =>
    ⟨firstFailure [(data.isEmpty, .invalidArgument), (b.name == "", .noBucket),
        (id == "", .noObjectId)],
      target .put [b.name, id] ++ etagParam etag :: jsonBody (StoredObject.partialUpdate data acl),
      .plain, b.timeout⟩
  | deleteObject b id etag mark =>
    ⟨firstFailure [(b.name == "", .noBucket), (id == "", .noObjectId)],
      target .delete [b.name, id] ++ etagParam etag :: Draft.Step.optionalParam mark deleteMark "1",
      .plain, b.timeout⟩
  | downloadFile b name localPath =>
    ⟨firstFailure [(name == "" || localPath == "", .invalidArgument), (b.name == "", .noBucket)],
      FileBucket.target .get b name, .download localPath, b.timeout⟩
  | uploadNewFile b name localPath contentType acl cacheDisabled =>
    ⟨firstFailure [(name == "" || (localPath == "" || contentType == ""), .invalidArgument),
        (b.name == "", .noBucket)],
      FileBucket.target .post b name
        ++ [.appendHeader HeaderName.contentType contentType, .appendHeader HeaderName.acl acl]
        ++ Draft.Step.optionalParam cacheDisabled "cacheDisabled" "true",
      .upload localPath, b.timeout⟩
  | uploadFile b name localPath contentType metaEtag fileEtag =>
    uploadPlan b name localPath contentType metaEtag fileEtag
  | uploadFileOf b m localPath =>
    uploadPlan b m.filename localPath m.contentType m.metaEtag m.fileEtag
  | deleteFile b name metaEtag fileEtag mark =>
    ⟨firstFailure [(name == "", .invalidArgument), (b.name == "", .noBucket)],
      FileBucket.target .delete b name ++ FileBucket.etagParams metaEtag fileEtag
        ++ Draft.Step.optionalParam mark deleteMark "1",
      .plain, b.timeout⟩
  | listFiles b published mark =>
    ⟨firstFailure [(b.name == "", .noBucket)],
      [.target .get FileBucket.path, .appendPath ("/" ++ b.name)]
        ++ Draft.Step.optionalParam published "published" "1"
        ++ Draft.Step.optionalParam mark deleteMark "1",
      .plain, b.timeout⟩
  | callGateway g body =>
    ⟨firstFailure [(g.name == "", .noApiName),
        (!(g.effectiveBody body).isEmpty && g.contentType == "", .noContentType)],
      g.steps (g.effectiveBody body), .plain, g.timeout⟩
where
  uploadPlan (b : Bucket) (name localPath contentType metaEtag fileEtag : String) : Plan :=
    ⟨firstFailure [(name == "" || localPath == "", .invalidArgument), (b.name == "", .noBucket)],
      FileBucket.target .put b name
        ++ .appendHeader HeaderName.contentType contentType
          :: FileBucket.etagParams metaEtag fileEtag,
      .upload localPath, b.timeout⟩

theorem forget_map {α β : Type} (r : Outcome α × Client ε ω) (f : α → β) :
    forget (r.1.map f, r.2) = forget r := by
  simp only [forget, Outcome.map_map]

theorem upload_eq_plan (e : Engine ε ω) (now : Int) (c : Client ε ω) (b : Bucket)
    (name localPath contentType metaEtag fileEtag : String) :
    forget (FileBucket.uploadUpdate e now b name localPath contentType metaEtag fileEtag c)
      = forget ((plan.uploadPlan b name localPath contentType metaEtag fileEtag).run e now c) := by
  simp only [plan.uploadPlan, Plan.run, FileBucket.uploadUpdate]
  by_cases harg : name = "" ∨ localPath = ""
  · simp [harg, firstFailure, forget, Outcome.map]
  by_cases hb : b.name = ""
  · simp [harg, hb, firstFailure, forget, Outcome.map]
  simp [harg, hb, firstFailure, forget_map]

theorem run_eq_plan (e : Engine ε ω) (now : Int) (c : Client ε ω) (o : Operation) :
    o.run e now c = forget (o.plan.run e now c) := by
  cases o with
  | getObject b id mark =>
    simp only [run, plan, Plan.run, ObjectBucket.get]
    by_cases hid : id = ""
    · simp [hid, firstFailure, forget, Outcome.map]
    by_cases hb : b.name = ""
    · simp [hid, hb, firstFailure, forget, Outcome.map]
    simp [hid, hb, firstFailure, forget_map]
  | queryObjects b params withCount =>
    simp only [run, plan, Plan.run, ObjectBucket.query]
    by_cases hb : b.name = ""
    · simp [hb, firstFailure, forget, Outcome.map]
    simp [hb, firstFailure, forget_map]
  | saveObject b object withAcl =>
    simp only [run, plan, Plan.run, ObjectBucket.save]
    by_cases hb : b.name = ""
    · simp [hb, firstFailure, forget, Outcome.map]
    simp [hb, firstFailure, forget_map]
  | updateObject b id etag data acl =>
    simp only [run, plan, Plan.run, ObjectBucket.update]
    by_cases hdata : data.isEmpty = true
    · simp [hdata, firstFailure, forget, Outcome.map]
    by_cases hb : b.name = ""
    · simp [hdata, hb, firstFailure, forget, Outcome.map]
    by_cases hid : id = ""
    · simp [hdata, hb, hid, firstFailure, forget, Outcome.map]
    simp [hdata, hb, hid, firstFailure, forget_map]
  | deleteObject b id etag mark =>
    simp only [run, plan, Plan.run, ObjectBucket.delete]
    by_cases hb : b.name = ""
    · simp [hb, firstFailure, forget, Outcome.map]
    by_cases hid : id = ""
    · simp [hb, hid, firstFailure, forget, Outcome.map]
    simp [hb, hid, firstFailure, forget_map]
  | downloadFile b name localPath =>
    simp only [run, plan, Plan.run, FileBucket.download]
    by_cases harg : name = "" ∨ localPath = ""
    · simp [harg, firstFailure, forget, Outcome.map]
    by_cases hb : b.name = ""
    · simp [harg, hb, firstFailure, forget, Outcome.map]
    simp [harg, hb, firstFailure, forget_map]
  | uploadNewFile b name localPath contentType acl cacheDisabled =>
    simp only [run, plan, Plan.run, FileBucket.uploadNew]
    by_cases harg : name = "" ∨ localPath = "" ∨ contentType = ""
    · simp [harg, firstFailure, forget, Outcome.map]
    by_cases hb : b.name = ""
    · simp [harg, hb, firstFailure, forget, Outcome.map]
    simp [harg, hb, firstFailure, forget_map]
  | uploadFile b name localPath contentType metaEtag fileEtag =>
    exact upload_eq_plan e now c b name localPath contentType metaEtag fileEtag
  | uploadFileOf b m localPath =>
    exact upload_eq_plan e now c b m.filename localPath m.contentType m.metaEtag m.fileEtag
  | deleteFile b name metaEtag fileEtag mark =>
    simp only [run, plan, Plan.run, FileBucket.delete]
    by_cases hname : name = ""
    · simp [hname, firstFailure, forget, Outcome.map]
    by_cases hb : b.name = ""
    · simp [hname, hb, firstFailure, forget, Outcome.map]
    simp [hname, hb, firstFailure, forget_map]
  | listFiles b published mark =>
    simp only [run, plan, Plan.run, FileBucket.list]
    by_cases hb : b.name = ""
    · simp [hb, firstFailure, forget, Outcome.map]
    simp [hb, firstFailure, forget_map]
  | callGateway g body =>
    simp only [run, plan, Plan.run, Gateway.call]
    by_cases hname : g.name = ""
    · simp [hname, firstFailure, forget, Outcome.map]
    have hname' : (g.name == "") = false := by simpa using hname
    cases htype : !(g.effectiveBody body).isEmpty && g.contentType == "" with
    | true => simp [hname, hname', firstFailure, forget, Outcome.map]
    | false => simp [hname, hname', firstFailure]

theorem value?_isSome_forget {α : Type} (r : Outcome α × Client ε ω) :
    (forget r).1.value?.isSome = r.1.value?.isSome := by
  obtain ⟨o, c⟩ := r
  cases o <;> rfl

theorem isSome_forget_of_success {α : Type} {r : Outcome α × Client ε ω} {v : α}
    (h : r.1 = .success v) : (forget r).1.value?.isSome = true := by
  rw [value?_isSome_forget, h]
  rfl

/-- An operation whose arguments are right succeeds with its request. -/
theorem success_of_request {e : Engine ε ω} {now : Int} {c : Client ε ω} {o : Operation}
    {r : Response} (hargs : o.plan.refused? = none)
    (h : (c.request e now o.plan.steps o.plan.job o.plan.timeout).1 = .success r) :
    (o.run e now c).1.value?.isSome = true := by
  rw [run_eq_plan, value?_isSome_forget, Plan.run, hargs]
  dsimp only
  rw [h]
  rfl

/-- An operation that succeeds has made its request, and leaves what the request leaves. -/
theorem request_of_success {e : Engine ε ω} {now : Int} {c : Client ε ω} {o : Operation}
    (h : (o.run e now c).1.value?.isSome = true) :
    ∃ r, (c.request e now o.plan.steps o.plan.job o.plan.timeout).1 = .success r ∧
      (o.run e now c).2 = (c.request e now o.plan.steps o.plan.job o.plan.timeout).2 := by
  rw [run_eq_plan, value?_isSome_forget] at h
  rw [run_eq_plan]
  unfold Plan.run at h ⊢
  cases hr : o.plan.refused? with
  | some f => simp [hr, Outcome.value?] at h
  | none =>
    rw [hr] at h
    dsimp only at h ⊢
    cases ho : (c.request e now o.plan.steps o.plan.job o.plan.timeout).1 with
    | success r => exact ⟨r, rfl, rfl⟩
    | rest error => simp [ho, Outcome.value?] at h
    | fatal f => simp [ho, Outcome.value?] at h

end Operation

/-! ### Drafts of operations on objects -/

namespace Draft

theorem foldl_objectTarget (d : Draft) (m : Method) (parts : List String) (rest : List Step) :
    (ObjectBucket.target m parts ++ rest).foldl change d = rest.foldl change { d with
      method := m
      path := ObjectBucket.path ++ String.join (parts.map ("/" ++ ·)) } := rfl

theorem foldl_jsonBody (d : Draft) (fs : Json.Fields) :
    (ObjectBucket.jsonBody fs).foldl change d =
      { d with headers := d.headers ++ [(HeaderName.contentType, jsonMediaType)],
               body := (Json.obj fs).bytes } := by
  have hfull : isFull (HeaderName.contentType, jsonMediaType) = true := by decide
  simp [ObjectBucket.jsonBody, Client.jsonHeader, change, hfull]

/-- A request to put an object: etag and body after the target. -/
theorem foldl_put (d : Draft) (parts : List String) (etag : String) (fs : Json.Fields) :
    (ObjectBucket.target .put parts ++ ObjectBucket.etagParam etag ::
        ObjectBucket.jsonBody fs).foldl change d =
      { d with
        method := .put
        path := ObjectBucket.path ++ String.join (parts.map ("/" ++ ·))
        params := d.params ++ [(Reserved.etag, etag)].filter isFull
        headers := d.headers ++ [(HeaderName.contentType, jsonMediaType)]
        body := (Json.obj fs).bytes } := by
  rw [foldl_objectTarget, List.foldl_cons, ObjectBucket.etagParam, change_appendParam,
    foldl_jsonBody]

end Draft

/-! ### What requests do, and what they leave alone -/

namespace Client

/-- A request is refused and nothing changes, or an executor runs it at the client's site. -/
theorem request_cases (e : Engine ε ω) (now : Int) (steps : List Draft.Step) (what : Job)
    (timeout : Int) (c : Client ε ω) :
    (∃ f, c.request e now steps what timeout = (.fatal f, c)) ∨
      (c.service.draft now).missing? = none ∧ ∃ (x : Executor ε) (seconds : Int),
        let r := x.run e what ((c.service.draft now).applyAll steps).build seconds c.site
        (c.request e now steps what timeout).1 = r.1 ∧
          (c.request e now steps what timeout).2.site = r.2.2 := by
  unfold request send
  cases hm : ((c.service.draft now).applyAll steps).missing? with
  | some f =>
    rw [execute_of_missing hm]
    exact Or.inl ⟨f, rfl⟩
  | none =>
    cases ha : c.service.pool.acquire? e.fresh with
    | none =>
      rw [execute_of_exhausted hm ha]
      exact Or.inl ⟨.poolExhausted, rfl⟩
    | some loan =>
      rw [execute_of_loan hm ha]
      refine Or.inr ⟨by rw [← hm, Draft.missing?_applyAll], loan.1, _, rfl, rfl⟩

theorem missing?_of_request_success {e : Engine ε ω} {now : Int} {steps : List Draft.Step}
    {what : Job} {timeout : Int} {c : Client ε ω} {r : Response}
    (h : (c.request e now steps what timeout).1 = .success r) :
    (c.service.draft now).missing? = none := by
  obtain ⟨f, hf⟩ | ⟨hm, -⟩ := request_cases e now steps what timeout c
  · rw [hf] at h
    cases h
  · exact hm

/-- A request changes nothing of the service but its pool. -/
theorem service_send (e : Engine ε ω) (d : Draft) (what : Job) (timeout : Int) (c : Client ε ω) :
    (c.send e d what timeout).2.service =
      { c.service with pool := (c.send e d what timeout).2.service.pool } := by
  unfold send
  cases hm : d.missing? with
  | some f => rw [execute_of_missing hm]
  | none =>
    cases ha : c.service.pool.acquire? e.fresh with
    | none => rw [execute_of_exhausted hm ha]
    | some loan => rw [execute_of_loan hm ha]; rfl

theorem session_send (e : Engine ε ω) (d : Draft) (what : Job) (timeout : Int) (c : Client ε ω) :
    (c.send e d what timeout).2.service.session = c.service.session := by
  rw [service_send]

theorem session_request (e : Engine ε ω) (now : Int) (steps : List Draft.Step) (what : Job)
    (timeout : Int) (c : Client ε ω) :
    (c.request e now steps what timeout).2.service.session = c.service.session :=
  session_send e _ what timeout c

end Client

theorem Operation.session_run (e : Engine ε ω) (now : Int) (c : Client ε ω) (o : Operation) :
    (o.run e now c).2.service.session = c.service.session := by
  rw [run_eq_plan]
  unfold forget Plan.run
  split
  · rfl
  · exact Client.session_request ..

end AppBackend
