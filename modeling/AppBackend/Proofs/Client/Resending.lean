import AppBackend.Proofs.Client.Traffic
import AppBackend.Proofs.Server.PartialUpdate

/-!
# Objects sent again

What is sent of an object when it is saved or updated. Reading an object takes its reserved members
out, and saving it puts two of them back. Main statements: `replacement_ofFields`, an object that
was read and is saved again is sent as it was read, without the members that only the server sets;
and `saved_content_sent`.
-/

namespace AppBackend

variable {ε ω : Type}

/-! ### Members -/

/-- The reserved members that are never sent. -/
def Reserved.unsent : List String :=
  [Reserved.id, Reserved.etag, Reserved.updatedAt, Reserved.deleted]

theorem Reserved.mem_keys_iff {key : String} :
    key ∈ Reserved.keys ↔
      key = Reserved.acl ∨ key = Reserved.createdAt ∨ key ∈ Reserved.unsent := by
  simp only [Reserved.keys, Reserved.unsent, List.mem_cons, List.not_mem_nil, or_false]
  tauto

namespace StoredObject

/-- The members `fs` that are sent of an object: its data without their reserved members, and of
those the two given. -/
structure Content (data : Json.Fields) (acl createdAt : Option Json) (fs : Json.Fields) : Prop where
  data : ∀ key, key ∉ Reserved.keys → fs.get? key = data.get? key
  acl : fs.get? Reserved.acl = acl
  createdAt : fs.get? Reserved.createdAt = createdAt
  unsent : ∀ key ∈ Reserved.unsent, fs.get? key = none

theorem content_partialUpdate (data : Json.Fields) (acl : Option Json) :
    Content data acl none (partialUpdate data acl) := by
  have hget := get?_partialUpdate data acl
  refine ⟨?_, ?_, ?_, ?_⟩
  · intro key hkey
    have hacl : key ≠ Reserved.acl := fun he => hkey (Reserved.mem_keys_iff.2 (.inl he))
    rw [hget, if_neg hacl, if_neg hkey]
  · rw [hget, if_pos rfl]
  · rw [hget, if_neg (by decide), if_pos (by decide)]
  · intro key hkey
    have hacl : key ≠ Reserved.acl := by
      rintro rfl
      exact absurd hkey (by decide)
    rw [hget, if_neg hacl, if_pos (Reserved.mem_keys_iff.2 (.inr (.inr hkey)))]

section
variable {data fs : Json.Fields} {acl createdAt : Option Json}

theorem Content.withCreatedAt (h : Content data acl createdAt fs) (v : Json) :
    Content data acl (some v) (fs.insert Reserved.createdAt v) := by
  have hne {key : String} (hkey : key ≠ Reserved.createdAt) :
      (fs.insert Reserved.createdAt v).get? key = fs.get? key :=
    Keyed.get?_insert_of_ne fs v hkey.symm
  refine ⟨?_, ?_, Keyed.get?_insert_self .., ?_⟩
  · intro key hkey
    rw [hne (fun he => hkey (Reserved.mem_keys_iff.2 (.inr (.inl he)))), h.data key hkey]
  · rw [hne (by decide), h.acl]
  · intro key hkey
    have hcreated : key ≠ Reserved.createdAt := by
      rintro rfl
      exact absurd hkey (by decide)
    rw [hne hcreated, h.unsent key hkey]

theorem Content.unique {gs : Json.Fields} (hfs : Content data acl createdAt fs)
    (hgs : Content data acl createdAt gs) (hf : Keyed.Ascending fs) (hg : Keyed.Ascending gs) :
    fs = gs := by
  -- every key is user data or one of the reserved ones, and each kind has its own clause
  refine hf.ext hg fun key => ?_
  by_cases hkey : key ∈ Reserved.keys
  · rcases Reserved.mem_keys_iff.1 hkey with rfl | rfl | hunsent
    · rw [hfs.acl, hgs.acl]
    · rw [hfs.createdAt, hgs.createdAt]
    · rw [hfs.unsent key hunsent, hgs.unsent key hunsent]
  · rw [hfs.data key hkey, hgs.data key hkey]

end

/-! ### What is sent -/

theorem creation_eq (o : StoredObject) (withAcl : Bool) :
    o.creation withAcl = partialUpdate o.data (if withAcl then o.acl else none) := by
  unfold creation partialUpdate
  cases withAcl with
  | false => rfl
  | true => cases o.acl <;> rfl

/-- The members that replace those of an object. -/
def replacing (o : StoredObject) : Json.Fields :=
  let fs := partialUpdate o.data o.acl
  if o.createdAt = "" then fs else fs.insert Reserved.createdAt (.str o.createdAt)

theorem replacement_eq (o : StoredObject) :
    o.replacement = [(fullUpdateKey, .obj o.replacing)] := by
  unfold replacement replacing partialUpdate
  cases o.acl <;> rfl

def sentCreatedAt (o : StoredObject) : Option Json :=
  if o.createdAt = "" then none else some (.str o.createdAt)

theorem content_replacing (o : StoredObject) :
    Content o.data o.acl o.sentCreatedAt o.replacing := by
  have hcontent := content_partialUpdate o.data o.acl
  unfold sentCreatedAt replacing
  by_cases hcreated : o.createdAt = ""
  · rw [if_pos hcreated, if_pos hcreated]
    exact hcontent
  · rw [if_neg hcreated, if_neg hcreated]
    exact hcontent.withCreatedAt _

theorem ascending_replacing {o : StoredObject} (h : Keyed.Ascending o.data) :
    Keyed.Ascending o.replacing := by
  have hascending := ascending_partialUpdate h o.acl
  unfold replacing
  split
  · exact hascending
  · exact hascending.insert _ _

/-! ### Objects that were read -/

/-- The members of an object that is there, as a reply has them: it has an id, and what else is put
back when it is saved is of its kind. -/
structure Replied (fs : Json.Fields) : Prop where
  ascending : Keyed.Ascending fs
  id : fs.text Reserved.id ≠ ""
  acl : ∀ v, fs.get? Reserved.acl = some v → ∃ members, v = .obj members
  createdAt : ∀ v, fs.get? Reserved.createdAt = some v → ∃ s, s ≠ "" ∧ v = .str s

section
variable {fs : Json.Fields} (h : Replied fs)
include h

theorem Replied.acl_ofFields (bucket : String) :
    (ofFields bucket fs).acl = fs.get? Reserved.acl := by
  change (fs.get? Reserved.acl).filter (fun v => v.obj?.isSome) = _
  cases hv : fs.get? Reserved.acl with
  | none => rfl
  | some v =>
    obtain ⟨members, rfl⟩ := h.acl v hv
    rfl

theorem Replied.sentCreatedAt_ofFields (bucket : String) :
    (ofFields bucket fs).sentCreatedAt = fs.get? Reserved.createdAt := by
  have htext : (ofFields bucket fs).createdAt = fs.text Reserved.createdAt := rfl
  rw [sentCreatedAt, htext, Json.Fields.text]
  cases hv : fs.get? Reserved.createdAt with
  | none => rfl
  | some v =>
    obtain ⟨s, hs, rfl⟩ := h.createdAt v hv
    exact if_neg hs

/-- An object that was read is sent as it was read, without what only the server sets. -/
theorem Replied.replacing_ofFields (bucket : String) :
    (ofFields bucket fs).replacing = Keyed.eraseAll fs Reserved.unsent := by
  have hget (key : String) : Keyed.get? (Keyed.eraseAll fs Reserved.unsent) key
      = if key ∈ Reserved.unsent then none else fs.get? key := Keyed.get?_eraseAll ..
  have hread : Content (ofFields bucket fs).data (ofFields bucket fs).acl
      (ofFields bucket fs).sentCreatedAt (Keyed.eraseAll fs Reserved.unsent) := by
    refine ⟨?_, ?_, ?_, ?_⟩
    · intro key hkey
      have hsent : key ∉ Reserved.unsent :=
        fun hm => hkey (Reserved.mem_keys_iff.2 (.inr (.inr hm)))
      rw [hget, if_neg hsent, get?_ofFields_data, if_neg hkey]
    · rw [hget, if_neg (by decide), h.acl_ofFields]
    · rw [hget, if_neg (by decide), h.sentCreatedAt_ofFields]
    · intro key hkey
      rw [hget, if_pos hkey]
  have hdata : Keyed.Ascending (ofFields bucket fs).data := h.ascending.eraseAll _
  exact (content_replacing _).unique hread (ascending_replacing hdata) (h.ascending.eraseAll _)

end

end StoredObject

/-! ### Transfers -/

namespace ObjectBucket
variable {e : Engine ε ω} {now : Int} {b : Bucket} {c : Client ε ω} {t : Transfer × Exchange}

theorem save_eq_plan (e : Engine ε ω) (now : Int) (b : Bucket) (o : StoredObject)
    (withAcl : Bool) (c : Client ε ω) :
    save e now b o withAcl c =
      let r := (Operation.saveObject b o withAcl).plan.run e now c
      (r.1.map (ofResponse b), r.2) := by
  simp only [save, Operation.plan, Plan.run]
  by_cases hb : b.name = ""
  · simp [hb, Operation.firstFailure, Outcome.map]
  simp [hb, Operation.firstFailure]

theorem update_eq_plan (e : Engine ε ω) (now : Int) (b : Bucket) (id etag : String)
    (data : Json.Fields) (acl : Option Json) (c : Client ε ω) :
    update e now b id etag data acl c =
      let r := (Operation.updateObject b id etag data acl).plan.run e now c
      (r.1.map (ofResponse b), r.2) := by
  simp only [update, Operation.plan, Plan.run]
  by_cases hdata : data.isEmpty = true
  · simp [hdata, Operation.firstFailure, Outcome.map]
  by_cases hb : b.name = ""
  · simp [hdata, hb, Operation.firstFailure, Outcome.map]
  by_cases hid : id = ""
  · simp [hdata, hb, hid, Operation.firstFailure, Outcome.map]
  simp [hdata, hb, hid, Operation.firstFailure]

theorem save_recorded (e : Engine ε ω) (now : Int) (b : Bucket) (o : StoredObject)
    (withAcl : Bool) (c : Client ε ω) :
    let out := save e.recorded now b o withAcl c.recorded
    save e now b o withAcl c = (out.1, out.2.unrecorded) := by
  intro out
  rw [show out = _ from save_eq_plan .., save_eq_plan, Plan.run_recorded rfl]

theorem update_recorded (e : Engine ε ω) (now : Int) (b : Bucket) (id etag : String)
    (data : Json.Fields) (acl : Option Json) (c : Client ε ω) :
    let out := update e.recorded now b id etag data acl c.recorded
    update e now b id etag data acl c = (out.1, out.2.unrecorded) := by
  intro out
  rw [show out = _ from update_eq_plan .., update_eq_plan, Plan.run_recorded rfl]

/-- An object under its id is sent as the value of one member, any other as it is. -/
def wrapped (o : StoredObject) (content : Json.Fields) : Json.Fields :=
  if o.id = "" then content else [(fullUpdateKey, .obj content)]

/-- The target of an object; the parameters after it may be empty. -/
def objectUrl (k : Credentials) (bucket id : String) (query : String) : String :=
  k.endpoint ++ (if k.endpoint.toList.getLast? = some '/' then "" else "/") ++ "1/" ++ k.tenant
    ++ "/objects/" ++ bucket ++ "/" ++ id ++ query

def etagQuery (etag : String) : String :=
  if etag = "" then "" else "?etag=" ++ String.ofList (Percent.encode etag)

theorem query_etag (etag : String) :
    String.ofList (Draft.query ([(Reserved.etag, etag)].filter Draft.isFull)) = etagQuery etag := by
  unfold etagQuery
  by_cases he : etag = ""
  · rw [if_pos he, he]
    rfl
  · have hfull : Draft.isFull (Reserved.etag, etag) = true :=
      Draft.isFull_iff.2 ⟨(by decide : Reserved.etag ≠ ""), he⟩
    have hname : Percent.encode Reserved.etag = ['e', 't', 'a', 'g'] := by decide
    rw [if_neg he, Draft.query, List.filter_filter]
    simp only [Bool.and_self, List.filter_cons_of_pos hfull, List.filter_nil, List.map_cons,
      List.map_nil, Draft.paramText, hname, Text.joined]
    exact String.toList_inj.1 (by simp)

theorem request_of_put {d : Draft} (hd : d.missing? = none) (hparams : d.params = [])
    (b : Bucket) (id etag : String) (fs : Json.Fields) :
    let r := (d.applyAll (target .put [b.name, id] ++ etagParam etag :: jsonBody fs)).build
    r.method = .put ∧ r.url = objectUrl d.credentials b.name id (etagQuery etag) ∧
      r.body = (Json.obj fs).bytes := by
  intro r
  have hr : r = _ := congrArg Draft.build
    ((Draft.applyAll_of_complete hd _).trans (Draft.foldl_put d [b.name, id] etag fs))
  rw [hr]
  refine ⟨rfl, ?_, rfl⟩
  have hpath : path ++ String.join ([b.name, id].map ("/" ++ ·))
      = "/objects/" ++ b.name ++ "/" ++ id := by
    simp only [path, String.join, List.map_cons, List.map_nil, List.foldl_cons, List.foldl_nil,
      String.empty_append, String.append_assoc]
    exact (String.append_assoc ..).symm
  simp only [Draft.build, Draft.url, hparams, List.nil_append, query_etag, hpath, objectUrl,
    String.append_assoc]

theorem body_of_post {d : Draft} (hd : d.missing? = none) (b : Bucket) (fs : Json.Fields) :
    (d.applyAll (target .post [b.name] ++ jsonBody fs)).build.body = (Json.obj fs).bytes := by
  rw [Draft.applyAll_of_complete hd, Draft.foldl_objectTarget, Draft.foldl_jsonBody]
  rfl

theorem steps_of_new {o : StoredObject} (hid : o.id = "") (b : Bucket) (withAcl : Bool) :
    (Operation.saveObject b o withAcl).plan.steps
      = target .post [b.name] ++ jsonBody (o.creation withAcl) := if_pos hid

theorem steps_of_existing {o : StoredObject} (hid : o.id ≠ "") (b : Bucket) (withAcl : Bool) :
    (Operation.saveObject b o withAcl).plan.steps
      = target .put [b.name, o.id] ++ etagParam o.etag :: jsonBody o.replacement := if_neg hid

/-- What saving an object sends is its data, and of the reserved members what is right for a new
object or for one that is there. -/
theorem content_of_mem_save {o : StoredObject} {withAcl : Bool}
    (ht : t ∈ (save e.recorded now b o withAcl c.recorded).2.traffic) :
    ∃ content, t.1.request.body = (Json.obj (wrapped o content)).bytes ∧
      StoredObject.Content o.data (if o.id = "" ∧ withAcl = false then none else o.acl)
        (if o.id = "" then none else o.sentCreatedAt) content := by
  rw [save_eq_plan] at ht
  obtain ⟨hd, hr⟩ := Plan.of_mem_traffic rfl ht
  unfold wrapped
  by_cases hid : o.id = ""
  · -- a new object has an ACL only if it is asked for, and no time of creation
    have hacl : (if o.id = "" ∧ withAcl = false then none else o.acl)
        = if withAcl then o.acl else none := by
      cases withAcl <;> simp [hid]
    refine ⟨o.creation withAcl, ?_, ?_⟩
    · rw [hr, steps_of_new hid, body_of_post hd, if_pos hid]
    · rw [hacl, if_pos hid, StoredObject.creation_eq]
      exact StoredObject.content_partialUpdate ..
  · refine ⟨o.replacing, ?_, ?_⟩
    · rw [hr, steps_of_existing hid, (request_of_put hd rfl b o.id o.etag _).2.2, if_neg hid,
        StoredObject.replacement_eq]
    · rw [if_neg fun h => hid h.1, if_neg hid]
      exact o.content_replacing

theorem content_of_mem_update {id etag : String} {data : Json.Fields} {acl : Option Json}
    (ht : t ∈ (update e.recorded now b id etag data acl c.recorded).2.traffic) :
    ∃ content, t.1.request.body = (Json.obj content).bytes ∧
      StoredObject.Content data acl none content := by
  rw [update_eq_plan] at ht
  obtain ⟨hd, hr⟩ := Plan.of_mem_traffic rfl ht
  refine ⟨_, ?_, StoredObject.content_partialUpdate data acl⟩
  rw [hr]
  exact (request_of_put hd rfl b id etag _).2.2

/-- Saving an object that was read asks to replace it, under its etag, by what was read. -/
theorem request_of_mem_save {fs : Json.Fields} (hfs : StoredObject.Replied fs) {origin : String}
    {withAcl : Bool}
    (ht : t ∈ (save e.recorded now b (.ofFields origin fs) withAcl c.recorded).2.traffic) :
    t.1.request.method = .put ∧
      t.1.request.url = objectUrl c.service.credentials b.name (fs.text Reserved.id)
        (etagQuery (fs.text Reserved.etag)) ∧
      t.1.request.body
        = (Json.obj [(fullUpdateKey, .obj (Keyed.eraseAll fs Reserved.unsent))]).bytes := by
  let o := StoredObject.ofFields origin fs
  rw [save_eq_plan] at ht
  obtain ⟨hd, hr⟩ := Plan.of_mem_traffic rfl ht
  have hid : o.id ≠ "" := hfs.id
  rw [hr, steps_of_existing hid, StoredObject.replacement_eq, hfs.replacing_ofFields]
  exact request_of_put hd rfl b o.id o.etag _

theorem exists_sent_save {e : Engine ε ω} {c : Client ε ω} (hb : b.name ≠ "")
    (hcomplete : c.service.credentials.missing? = none)
    (hfree : c.service.pool.acquire? e.fresh ≠ none) (o : StoredObject) (withAcl : Bool) :
    ∃ t, (save e.recorded now b o withAcl c.recorded).2.traffic = [t] := by
  have hargs : (Operation.saveObject b o withAcl).plan.refused? = none := by
    simp [Operation.plan, Operation.firstFailure, hb]
  rw [save_eq_plan]
  exact Plan.exists_traffic_of_free rfl hargs hcomplete hfree

theorem exists_sent_update {e : Engine ε ω} {c : Client ε ω} (hb : b.name ≠ "")
    (hcomplete : c.service.credentials.missing? = none)
    (hfree : c.service.pool.acquire? e.fresh ≠ none) {id : String} (hid : id ≠ "") (etag : String)
    {data : Json.Fields} (hdata : data ≠ []) (acl : Option Json) :
    ∃ t, (update e.recorded now b id etag data acl c.recorded).2.traffic = [t] := by
  have hargs : (Operation.updateObject b id etag data acl).plan.refused? = none := by
    simp [Operation.plan, Operation.firstFailure, hb, hid, hdata]
  rw [update_eq_plan]
  exact Plan.exists_traffic_of_free rfl hargs hcomplete hfree

/-- A client with complete credentials and an executor to lend sends one request for every object
that it saves into a bucket with a name. For an object that was read this asks to replace it, under
its etag if it has one, by what was read without the members that only the server sets. Whatever a
client sends when it saves or updates an object, its reserved members are those of the object. -/
theorem saved_content_sent (e : Engine ε ω) (now : Int) (b : Bucket) (c : Client ε ω) :
    let save (o : StoredObject) (withAcl : Bool) := save e.recorded now b o withAcl c.recorded
    let update (id etag : String) (data : Json.Fields) (acl : Option Json) :=
      update e.recorded now b id etag data acl c.recorded
    (∀ o withAcl, ObjectBucket.save e now b o withAcl c
      = ((save o withAcl).1, (save o withAcl).2.unrecorded)) ∧
    (∀ id etag data acl, ObjectBucket.update e now b id etag data acl c
      = ((update id etag data acl).1, (update id etag data acl).2.unrecorded)) ∧
    (b.name ≠ "" → c.service.credentials.missing? = none →
      c.service.pool.acquire? e.fresh ≠ none →
      (∀ origin fs withAcl, StoredObject.Replied fs →
        ∃ t, (save (.ofFields origin fs) withAcl).2.traffic = [t] ∧
          t.1.request.method = .put ∧
          t.1.request.url = objectUrl c.service.credentials b.name (fs.text Reserved.id)
            (etagQuery (fs.text Reserved.etag)) ∧
          t.1.request.body
            = (Json.obj [(fullUpdateKey, .obj (Keyed.eraseAll fs Reserved.unsent))]).bytes) ∧
      (∀ o withAcl, ∃ t, (save o withAcl).2.traffic = [t]) ∧
      ∀ id etag data acl, id ≠ "" → data ≠ [] →
        ∃ t, (update id etag data acl).2.traffic = [t]) ∧
    (∀ o withAcl, ∀ t ∈ (save o withAcl).2.traffic, ∃ content,
      t.1.request.body = (Json.obj (wrapped o content)).bytes ∧
      StoredObject.Content o.data (if o.id = "" ∧ withAcl = false then none else o.acl)
        (if o.id = "" then none else o.sentCreatedAt) content) ∧
    ∀ id etag data acl, ∀ t ∈ (update id etag data acl).2.traffic, ∃ content,
      t.1.request.body = (Json.obj content).bytes ∧
      StoredObject.Content data acl none content := by
  intro save update
  refine ⟨?_, ?_, ?_, ?_, ?_⟩
  · exact fun o withAcl => save_recorded e now b o withAcl c
  · exact fun id etag data acl => update_recorded e now b id etag data acl c
  · intro hb hcomplete hfree
    have hsent (o : StoredObject) (withAcl : Bool) : ∃ t, (save o withAcl).2.traffic = [t] :=
      exists_sent_save hb hcomplete hfree o withAcl
    refine ⟨?_, hsent, ?_⟩
    · intro origin fs withAcl hfs
      obtain ⟨t, ht⟩ := hsent (.ofFields origin fs) withAcl
      exact ⟨t, ht, request_of_mem_save hfs (ht ▸ List.mem_singleton_self t)⟩
    · intro id etag data acl hid hdata
      exact exists_sent_update hb hcomplete hfree hid etag hdata acl
  · exact fun o withAcl t ht => content_of_mem_save ht
  · exact fun id etag data acl t ht => content_of_mem_update ht

/-- A marked object with an ACL and an etag that has to be coded. -/
theorem saved_content_sent_of_marked :
    let e : Engine Unit Unit := ⟨(), fun _ _ x w => (⟨[], .ok ()⟩, x, w)⟩
    let service : Service Unit := ⟨⟨"http://h", "t", "a", "k", ""⟩, {}, {}, .new 1 1, 60⟩
    let c : Client Unit Unit := ⟨service, {}, ()⟩
    let fs : Json.Fields := [("ACL", .obj []), ("_deleted", .bool true), ("_id", .str "i"),
      ("a", .int 1), ("createdAt", .str "2017"), ("etag", .str "e&1")]
    ∃ t, (save e.recorded 0 ⟨"b", 5⟩ (.ofFields "b" fs) false c.recorded).2.traffic = [t] ∧
      t.1.request.method = .put ∧ t.1.request.url = "http://h/1/t/objects/b/i?etag=e%261" ∧
      t.1.request.body = Utf8.ofString
        "\x7b\"$full_update\":\x7b\"ACL\":\x7b\x7d,\"a\":1,\"createdAt\":\"2017\"\x7d\x7d" := by
  intro e service c fs
  have hfs : StoredObject.Replied fs := by
    refine ⟨by decide, by decide, ?_, ?_⟩
    · intro v hv
      exact ⟨[], (Option.some.inj hv).symm⟩
    · intro v hv
      exact ⟨"2017", by decide, (Option.some.inj hv).symm⟩
  obtain ⟨-, -, hsent, -⟩ := saved_content_sent e 0 ⟨"b", 5⟩ c
  obtain ⟨t, ht, hmethod, hurl, hbody⟩ :=
    (hsent (by decide) (by decide) (by decide)).1 "b" fs false hfs
  exact ⟨t, ht, hmethod, hurl.trans (by decide +kernel), hbody.trans (by decide +kernel)⟩

/-- Nothing is sent when an object is saved into a bucket without a name. -/
theorem unnamed_bucket_sends_nothing :
    let e : Engine Unit Unit := ⟨(), fun _ _ x w => (⟨[], .ok ()⟩, x, w)⟩
    let service : Service Unit := ⟨⟨"http://h", "t", "a", "k", ""⟩, {}, {}, .new 1 1, 60⟩
    let c : Client Unit Unit := ⟨service, {}, ()⟩
    let fs : Json.Fields := [("_id", .str "i"), ("a", .int 1)]
    let out := save e.recorded 0 ⟨"", 5⟩ (.ofFields "" fs) false c.recorded
    StoredObject.Replied fs ∧ service.credentials.missing? = none ∧
      service.pool.acquire? e.fresh ≠ none ∧
      out.1 = .fatal .noBucket ∧ out.2.traffic = [] := by
  intro e service c fs out
  refine ⟨⟨by decide, by decide, ?_, ?_⟩, by decide, by decide, rfl, rfl⟩
  · intro v hv
    cases hv
  · intro v hv
    cases hv

end ObjectBucket
end AppBackend
