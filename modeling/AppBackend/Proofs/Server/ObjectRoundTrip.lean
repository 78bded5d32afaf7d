import AppBackend.Proofs.Server.Delivery
import AppBackend.Proofs.Server.ObjectHistory

/-!
# Objects saved and read back

What the server makes of an object that a client saves, what the client gets back, and what any
client reads later while no call is about that object. Main statement: `save_then_get`.
-/

namespace AppBackend

/-! ### Drafts of objects -/

theorem Draft.toList_objectPath (parts : List String) :
    (ObjectBucket.path ++ String.join (parts.map ("/" ++ ·))).toList
      = ("objects".toList :: parts.map String.toList).flatMap ('/' :: ·) := by
  rw [String.toList_append, String.toList_join, List.flatMap_cons, List.flatMap_map,
    List.flatMap_map]
  simp only [String.toList_append]
  rfl

namespace Server

section
variable {d : Draft} {bucket id : String}

theorem leads_bucketObjects (hb : Unreserved bucket) (hne : bucket ≠ "")
    (hpath : d.path = ObjectBucket.path ++ String.join ([bucket].map ("/" ++ ·)))
    (htakes : (Route.bucketObjects bucket).takes d.method.name = true) :
    Leads d (.bucketObjects bucket) where
  path := by
    rw [hpath, Draft.toList_objectPath]
    simpa using Unmarked.append (by decide : Unmarked "/objects/".toList) hb.unmarked
  arrives := by
    intro path h
    rw [hpath, Draft.toList_objectPath] at h
    refine ⟨_, Route.ofPath?_bucketObjects (hb.not_mem (by decide)) hne h, ?_⟩
    rw [Route.decoded, Route.decodePart_of_unreserved _ hb]
    rfl
  takes := htakes

theorem leads_object (hb : Unreserved bucket) (hbne : bucket ≠ "") (hid : Unreserved id)
    (hidne : id ≠ "")
    (hpath : d.path = ObjectBucket.path ++ String.join ([bucket, id].map ("/" ++ ·)))
    (htakes : (Route.object bucket id).takes d.method.name = true) :
    Leads d (.object bucket id) where
  path := by
    rw [hpath, Draft.toList_objectPath]
    have hwhole := (Unmarked.append (by decide : Unmarked "/objects/".toList) hb.unmarked).append
      (Unmarked.append (by decide : Unmarked "/".toList) hid.unmarked)
    simpa using hwhole
  arrives := by
    intro path h
    rw [hpath, Draft.toList_objectPath] at h
    refine ⟨_, Route.ofPath?_object (hb.not_mem (by decide)) hbne (hid.not_mem (by decide)) hidne h,
      ?_⟩
    rw [Route.decoded, Route.decodePart_of_unreserved _ hb, Route.decodePart_of_unreserved _ hid]
    rfl
  takes := htakes

end

/-! ### Objects as the server makes them -/

namespace Objects

/-- Data with the members that the server adds. -/
def assembled (data : Json.Fields) (id created etag : String) (now : Timestamp) : Json.Fields :=
  renew ((data.insert Reserved.id (.str id)).insert Reserved.createdAt (.str created)) etag now

section
variable (data : Json.Fields) (id created etag : String) (now : Timestamp)

theorem get?_assembled (key : String) :
    (assembled data id created etag now).get? key =
      if key = Reserved.updatedAt then some (.str now.text)
      else if key = Reserved.etag then some (.str etag)
      else if Reserved.createdAt = key then some (.str created)
      else if Reserved.id = key then some (.str id)
      else data.get? key := by
  rw [assembled, get?_renew, Keyed.get?_insert, Keyed.get?_insert]

theorem strip_assembled :
    Reserved.strip (assembled data id created etag now) = Reserved.strip data := by
  simp only [assembled, renew, Reserved.strip]
  rw [Keyed.eraseAll_insert_of_mem (by decide), Keyed.eraseAll_insert_of_mem (by decide),
    Keyed.eraseAll_insert_of_mem (by decide), Keyed.eraseAll_insert_of_mem (by decide)]

theorem isPlain_assembled {data : Json.Fields} (h : (Json.obj data).isPlain = true) :
    (Json.obj (assembled data id created etag now)).isPlain = true :=
  Json.isPlain_insert (Json.isPlain_insert (Json.isPlain_insert (Json.isPlain_insert h _ rfl) _ rfl)
    _ rfl) _ rfl

theorem depth_assembled_le {data : Json.Fields} {n : Nat} (h : (Json.obj data).depth ≤ n) :
    (Json.obj (assembled data id created etag now)).depth ≤ n := by
  have hn (s : String) : (Json.str s).depth < n := by
    rw [Json.depth] at h
    exact Nat.lt_of_lt_of_le (Nat.succ_pos _) h
  exact Json.depth_insert_le (Json.depth_insert_le (Json.depth_insert_le (Json.depth_insert_le h _
    (hn _)) _ (hn _)) _ (hn _)) _ (hn _)

end

end Objects
end Server

/-! ### What a client sends of an object -/

namespace StoredObject

/-- Data that are sent for an object: its own, less what is reserved, with an access list or not. -/
structure Sends (o : StoredObject) (acl : Option Json) (data : Json.Fields) : Prop where
  plain : (Json.obj data).isPlain = true
  same : Reserved.strip data = Reserved.strip o.data
  acl : data.get? Reserved.acl = acl
  deleted : data.get? Reserved.deleted = none

section
variable {o : StoredObject} {acl : Option Json} {data : Json.Fields}

theorem sends_strip (h : (Json.obj o.data).isPlain = true) :
    o.Sends none (Reserved.strip o.data) where
  plain := Json.isPlain_eraseAll h _
  same := Keyed.eraseAll_eraseAll ..
  acl := by
    rw [Reserved.strip, Keyed.get?_eraseAll]
    rfl
  deleted := by
    rw [Reserved.strip, Keyed.get?_eraseAll]
    rfl

theorem Sends.withAcl (h : o.Sends none data) {a : Json} (ha : a.isPlain = true) :
    o.Sends (some a) (data.insert Reserved.acl a) where
  plain := Json.isPlain_insert h.plain _ ha
  same := by
    rw [Reserved.strip, Keyed.eraseAll_insert_of_mem (by decide)]
    exact h.same
  acl := Keyed.get?_insert_self ..
  deleted := by
    rw [Keyed.get?_insert_of_ne _ _ (by decide)]
    exact h.deleted

theorem Sends.withCreatedAt (h : o.Sends acl data) (t : String) :
    o.Sends acl (data.insert Reserved.createdAt (.str t)) where
  plain := Json.isPlain_insert h.plain _ rfl
  same := by
    rw [Reserved.strip, Keyed.eraseAll_insert_of_mem (by decide)]
    exact h.same
  acl := by
    rw [Keyed.get?_insert_of_ne _ _ (by decide)]
    exact h.acl
  deleted := by
    rw [Keyed.get?_insert_of_ne _ _ (by decide)]
    exact h.deleted

section
variable (h : (Json.obj o.data).isPlain = true) (hacl : ∀ a, o.acl = some a → a.isPlain = true)
include h hacl

theorem sends_creation (withAcl : Bool) :
    o.Sends (if withAcl then o.acl else none) (o.creation withAcl) := by
  unfold creation
  cases withAcl with
  | false => exact sends_strip h
  | true =>
    cases ha : o.acl with
    | none => exact sends_strip h
    | some a => exact (sends_strip h).withAcl (hacl a ha)

theorem exists_replacement :
    ∃ data, o.replacement = [(fullUpdateKey, .obj data)] ∧ o.Sends o.acl data := by
  refine ⟨_, rfl, ?_⟩
  have hsent : o.Sends o.acl (partialUpdate o.data o.acl) := by
    unfold partialUpdate
    cases ha : o.acl with
    | none => exact sends_strip h
    | some a => exact (sends_strip h).withAcl (hacl a ha)
  split
  · exact hsent
  · exact hsent.withCreatedAt o.createdAt

end

/-- What a client makes of the object that the server has made of its data. -/
theorem Sends.ofFields_assembled (h : o.Sends acl data) (bucket id created etag : String)
    (now : Timestamp) :
    ofFields bucket (Server.Objects.assembled data id created etag now) =
      { bucket, id, etag, createdAt := created, updatedAt := now.text,
        acl := acl.filter fun v => v.obj?.isSome, data := Reserved.strip o.data } := by
  have hacl := (Server.Objects.get?_assembled data id created etag now Reserved.acl).trans h.acl
  have hdeleted :=
    (Server.Objects.get?_assembled data id created etag now Reserved.deleted).trans h.deleted
  have htext {key value : String}
      (hget : (Server.Objects.assembled data id created etag now).get? key = some (.str value)) :
      (Server.Objects.assembled data id created etag now).text key = value := by
    rw [Json.Fields.text, hget]
    rfl
  have hget := Server.Objects.get?_assembled data id created etag now
  rw [ofFields, htext (hget Reserved.id), htext (hget Reserved.etag),
    htext (hget Reserved.createdAt), htext (hget Reserved.updatedAt), hacl, Json.Fields.flag,
    hdeleted, Server.Objects.strip_assembled, h.same]
  rfl

end
end StoredObject

namespace Server

/-! ### Reading -/

/-- What a call finds of an object that can be seen. -/
theorem Objects.perform_read {s : Store} {bucket id : String} {fs : Json.Fields}
    (hfs : s.object? bucket id = some fs) (hvisible : isDeleted fs = false) {c : Call}
    (hget : c.method = "GET") (f : Fresh) :
    (Route.object bucket id).perform s f c = .ok (.json 200 (.obj fs), s) := by
  have hlook : lookUp s bucket id = .ok fs := by
    rw [lookUp, hfs]
  have hsee : isVisible (c.flag deleteMark) fs = true := by
    rw [isVisible, hvisible, Bool.not_false, Bool.or_true]
  have hread : read s c bucket id = .ok (.json 200 (.obj fs), s) := by
    rw [read, hlook]
    exact if_pos hsee
  rw [Route.perform, hget]
  exact hread

section
variable {fresh : Nat → Fresh} {c : Client Unit Backend} {now : Int} {b : Bucket} {id : String}

/-- A client that the server takes reads an object as it is stored. -/
theorem get_of_takes (hb : Unreserved b.name) (hbne : b.name ≠ "") (hid : Unreserved id)
    (hidne : id ≠ "") (htakes : Takes fresh c now (Operation.getObject b id false).plan.steps)
    {fs : Json.Fields} (hfs : c.site.backend.store.object? b.name id = some fs)
    (hvisible : isDeleted fs = false) (hplain : (Json.obj fs).isPlain = true)
    (hdepth : (Json.obj fs).depth ≤ 127) :
    (ObjectBucket.get (Backend.engine fresh) now b id false c).1
      = .success (.ofFields b.name fs) := by
  let d : Draft := { c.service.draft now with
    path := ObjectBucket.path ++ String.join ([b.name, id].map ("/" ++ ·)) }
  have hdraft : (c.service.draft now).applyAll (Operation.getObject b id false).plan.steps = d := by
    rw [Draft.applyAll_of_complete htakes.missing?]
    rfl
  have hleads : Leads d (.object b.name id) := leads_object hb hbne hid hidne rfl rfl
  have husual : d.Usual := ⟨rfl, by simp [d, Service.draft], by simp [d, Service.draft]⟩
  obtain ⟨call, hcomes, hgate, houtcome, -⟩ :=
    request_of_takes htakes hdraft husual hleads.path b.timeout
  have hperform := Objects.perform_read hfs hvisible hcomes.method (fresh c.site.backend.calls)
  have hanswer : (c.site.backend.answer fresh call).1 = .json 200 (.obj fs) :=
    congrArg Prod.fst (hcomes.answer_of_perform hleads hgate hperform)
  rw [hanswer, Reply.classify_received (Reply.sendable_json (by decide) (by decide) _)
    (Nat.le_refl 200) (by decide : 200 < 300)] at houtcome
  have hget : (ObjectBucket.get (Backend.engine fresh) now b id false c).1
      = ((c.request (Backend.engine fresh) now (Operation.getObject b id false).plan.steps .plain
        b.timeout).1).map (ObjectBucket.ofResponse b) := by
    rw [ObjectBucket.get, if_neg hidne, if_neg hbne]
    rfl
  rw [hget, houtcome, Outcome.map, ObjectBucket.ofResponse,
    Reply.jsonObject_received (by decide) (by decide) hplain hdepth]

end

/-! ### Saving -/

/-- Names that are new with each call, and can stand in a path as they are. -/
structure Names (fresh : Nat → Fresh) : Prop where
  neverRepeats : NeverRepeats fresh
  usable : ∀ n, ∀ x ∈ (fresh n).names, x ≠ "" ∧ Unreserved x

/-- An object that a client has saved, as the server keeps it: with the id and the time that it had,
or with new ones. -/
structure Deposited (fresh : Nat → Fresh) (before after : Backend) (bucket : String)
    (o : StoredObject) (withAcl : Bool) (data : Json.Fields) (id created etag : String) : Prop where
  sends : o.Sends (if o.id ≠ "" ∨ withAcl = true then o.acl else none) data
  depth : (Json.obj data).depth ≤ 127
  calls : after.calls = before.calls + 1
  stored : after.store.object? bucket id
    = some (Objects.assembled data id created etag (fresh before.calls).now)
  named : NamedBefore fresh after.calls id
  unreserved : Unreserved id
  full : id ≠ "" ∧ created ≠ "" ∧ etag ≠ ""
  old : o.id ≠ "" → id = o.id ∧ ∃ fs, before.store.object? bucket o.id = some fs ∧
    fs.get? Reserved.createdAt = some (.str created)

section
variable {fresh : Nat → Fresh} {s s' : Store} {f : Fresh} {call : Call} {bucket id : String}
  {reply : Reply}

theorem Objects.eq_of_create (h : create s f call bucket = .ok (reply, s')) {data : Json.Fields}
    (hbody : Json.ofBytes? call.body = some (.obj data)) :
    reply = .json 201 (.obj (assembled data f.first f.now.text f.second f.now)) ∧
      s' = s.putObject bucket f.first (assembled data f.first f.now.text f.second f.now) := by
  obtain ⟨given, hgiven, h⟩ := exists_of_bind_eq_ok h
  obtain rfl : given = data := by
    simpa using (Call.ofBytes?_of_object hgiven).symm.trans hbody
  exact ⟨(reply_of_ok h).symm, (store_of_ok h).symm⟩

/-- Data that replace those of an object leave it its id and its time. -/
theorem Objects.eq_of_replacement (h : update s f call bucket id = .ok (reply, s'))
    {data : Json.Fields} (hbody : Json.ofBytes? call.body = some (.obj [(fullUpdateKey, .obj data)]))
    {n : Nat} (hold : ∀ fs, s.object? bucket id = some fs → Identified fresh n id fs) :
    ∃ fs t, s.object? bucket id = some fs ∧ t ≠ "" ∧
      fs.get? Reserved.createdAt = some (.str t) ∧ NamedBefore fresh n id ∧
      reply = .json 200 (.obj (assembled data id t f.first f.now)) ∧
      s' = s.putObject bucket id (assembled data id t f.first f.now) := by
  obtain ⟨given, hgiven, h⟩ := exists_of_bind_eq_ok h
  obtain ⟨fs, hfs, h⟩ := exists_of_bind_eq_ok h
  obtain ⟨u, -, h⟩ := exists_of_bind_eq_ok h
  obtain ⟨gs, hgs, h⟩ := exists_of_bind_eq_ok h
  have hread : given = [(fullUpdateKey, .obj data)] := by
    simpa using (Call.ofBytes?_of_object hgiven).symm.trans hbody
  have hfound := object?_of_lookUp hfs
  obtain ⟨t, ht, hcreated, hreplaced⟩ := replaced_of_identified (hold fs hfound) data
  have hchanged : gs = replaced fs data := by
    rw [hread, changed, Keyed.get?, if_pos rfl] at hgs
    exact (Except.ok.inj hgs).symm
  have hwhole : renew gs f.first f.now = assembled data id t f.first f.now := by
    rw [hchanged, hreplaced, assembled]
  rw [hwhole] at h
  exact ⟨fs, t, hfound, ht, hcreated, (hold fs hfound).named, (reply_of_ok h).symm,
    (store_of_ok h).symm⟩

end

section
variable {fresh : Nat → Fresh} {c : Client Unit Backend} {now : Int} {b : Bucket}
  {o : StoredObject} {withAcl : Bool} {saved : StoredObject}

/-- A save that succeeds has made its request, and gives what it got. -/
theorem request_of_save (h : (ObjectBucket.save (Backend.engine fresh) now b o withAcl c).1
      = .success saved) :
    let r := c.request (Backend.engine fresh) now (Operation.saveObject b o withAcl).plan.steps
      .plain b.timeout
    b.name ≠ "" ∧ (∃ response, r.1 = .success response ∧
        saved = .ofFields b.name response.jsonObject) ∧
      (ObjectBucket.save (Backend.engine fresh) now b o withAcl c).2 = r.2 := by
  intro r
  by_cases hb : b.name = ""
  · rw [ObjectBucket.save, if_pos hb] at h
    cases h
  have hsave : ObjectBucket.save (Backend.engine fresh) now b o withAcl c
      = (r.1.map (ObjectBucket.ofResponse b), r.2) := by
    simp only [r, ObjectBucket.save, if_neg hb, Operation.plan]
  rw [hsave] at h ⊢
  refine ⟨hb, ?_, rfl⟩
  cases hr : r.1 with
  | success response =>
    rw [hr] at h
    exact ⟨response, rfl, (Outcome.success.inj h).symm⟩
  | rest error =>
    rw [hr] at h
    cases h
  | fatal f =>
    rw [hr] at h
    cases h

section
variable (hnames : Names fresh) (hserver : c.service.credentials.AtServer)
  (hb : Unreserved b.name) (hplain : (Json.obj o.data).isPlain = true)
  (hacl : ∀ a, o.acl = some a → a.isPlain = true)
  (h : (ObjectBucket.save (Backend.engine fresh) now b o withAcl c).1 = .success saved)
include hnames hserver hb hplain hacl h

theorem deposited_of_creation (hid : o.id = "")
    (hdepth : (Json.obj (o.creation withAcl)).depth ≤ 127) :
    ∃ data id created etag,
      Deposited fresh c.site.backend
        (ObjectBucket.save (Backend.engine fresh) now b o withAcl c).2.site.backend b.name o withAcl
        data id created etag ∧
      saved = .ofFields b.name
        (Objects.assembled data id created etag (fresh c.site.backend.calls).now) := by
  obtain ⟨hbne, ⟨response, hr, hsaved⟩, hafter⟩ := request_of_save h
  have hsends := StoredObject.sends_creation hplain hacl withAcl
  let d : Draft := { c.service.draft now with
    method := .post
    path := ObjectBucket.path ++ String.join ([b.name].map ("/" ++ ·))
    headers := (c.service.draft now).headers ++ [(HeaderName.contentType, jsonMediaType)]
    body := (Json.obj (o.creation withAcl)).bytes }
  have hdraft : (c.service.draft now).applyAll (Operation.saveObject b o withAcl).plan.steps
      = d := by
    rw [Draft.applyAll_of_complete (call_of_request_success hr).1]
    simp only [Operation.plan, if_pos hid, Draft.foldl_objectTarget, Draft.foldl_jsonBody, d]
  obtain ⟨call, reply, s', hcomes, hp, hresponse, hbackend⟩ :=
    perform_of_plain_success hserver hdraft (leads_bucketObjects hb hbne rfl rfl) hr
  have hcreate : Objects.create c.site.backend.store (fresh c.site.backend.calls) call b.name
      = .ok (reply, s') := by
    rw [Route.perform, hcomes.method] at hp
    exact hp
  have hread : Json.ofBytes? call.body = some (.obj (o.creation withAcl)) := by
    rw [hcomes.body]
    exact Json.ofBytes?_bytes hsends.plain hdepth
  obtain ⟨rfl, rfl⟩ := Objects.eq_of_create hcreate hread
  have hfirst := List.mem_cons_self (a := (fresh c.site.backend.calls).first)
    (l := [(fresh c.site.backend.calls).second])
  refine ⟨o.creation withAcl, (fresh c.site.backend.calls).first,
    (fresh c.site.backend.calls).now.text, (fresh c.site.backend.calls).second,
    ⟨?_, hdepth, ?_, ?_, ?_, ?_, ?_, fun hne => absurd hid hne⟩, ?_⟩
  · simpa [hid] using hsends
  · rw [hafter, hbackend]
  · rw [hafter, hbackend]
    exact (Store.object?_putObject ..).trans (if_pos ⟨rfl, rfl⟩)
  · rw [hafter, hbackend]
    exact ⟨_, Nat.lt_succ_self _, hfirst⟩
  · exact (hnames.usable _ _ hfirst).2
  · exact ⟨(hnames.usable _ _ hfirst).1, Timestamp.text_ne_empty _,
      (hnames.usable _ _ (List.mem_cons_of_mem _ (List.mem_cons_self ..))).1⟩
  · rw [hsaved, hresponse, Reply.jsonObject_received (by decide) (by decide)
      (Objects.isPlain_assembled _ _ _ _ hsends.plain)
      (Objects.depth_assembled_le _ _ _ _ hdepth)]

theorem deposited_of_replacement (hid : o.id ≠ "") (hidok : Unreserved o.id)
    (hidentified : AllIdentified fresh c.site.backend)
    (hdepth : (Json.obj o.replacement).depth ≤ 127) :
    ∃ data id created etag,
      Deposited fresh c.site.backend
        (ObjectBucket.save (Backend.engine fresh) now b o withAcl c).2.site.backend b.name o withAcl
        data id created etag ∧
      saved = .ofFields b.name
        (Objects.assembled data id created etag (fresh c.site.backend.calls).now) := by
  obtain ⟨hbne, ⟨response, hr, hsaved⟩, hafter⟩ := request_of_save h
  obtain ⟨data, hreplacement, hsends⟩ := StoredObject.exists_replacement hplain hacl
  rw [hreplacement] at hdepth
  have hput := Draft.foldl_put (c.service.draft now) [b.name, o.id] o.etag o.replacement
  rw [hreplacement] at hput
  have hdraft : (c.service.draft now).applyAll (Operation.saveObject b o withAcl).plan.steps
      = { c.service.draft now with
          method := .put
          path := ObjectBucket.path ++ String.join ([b.name, o.id].map ("/" ++ ·))
          params := (c.service.draft now).params
            ++ [(Reserved.etag, o.etag)].filter Draft.isFull
          headers := (c.service.draft now).headers ++ [(HeaderName.contentType, jsonMediaType)]
          body := (Json.obj [(fullUpdateKey, .obj data)]).bytes } := by
    rw [Draft.applyAll_of_complete (call_of_request_success hr).1, ← hput]
    simp only [Operation.plan, if_neg hid, hreplacement]
  obtain ⟨call, reply, s', hcomes, hp, hresponse, hbackend⟩ :=
    perform_of_plain_success hserver hdraft (leads_object hb hbne hidok hid rfl rfl) hr
  have hupdate : Objects.update c.site.backend.store (fresh c.site.backend.calls) call b.name o.id
      = .ok (reply, s') := by
    rw [Route.perform, hcomes.method] at hp
    exact hp
  have hwhole : (Json.obj [(fullUpdateKey, .obj data)]).isPlain = true := by
    refine Json.isPlain_obj.2 ⟨List.pairwise_singleton .., fun m hm => ?_⟩
    rw [List.mem_singleton.1 hm]
    exact hsends.plain
  have hread : Json.ofBytes? call.body = some (.obj [(fullUpdateKey, .obj data)]) := by
    rw [hcomes.body]
    exact Json.ofBytes?_bytes hwhole hdepth
  have hinner : (Json.obj data).depth ≤ 127 := by
    rw [Json.depth, Json.depthOfMembers, Json.depthOfMembers] at hdepth
    omega
  obtain ⟨fs, t, hfs, ht, hcreated, hnamed, rfl, rfl⟩ :=
    Objects.eq_of_replacement hupdate hread (hidentified b.name o.id)
  have hfirst := List.mem_cons_self (a := (fresh c.site.backend.calls).first)
    (l := [(fresh c.site.backend.calls).second])
  refine ⟨data, o.id, t, (fresh c.site.backend.calls).first,
    ⟨?_, hinner, ?_, ?_, ?_, hidok, ⟨hid, ht, (hnames.usable _ _ hfirst).1⟩,
      fun _ => ⟨rfl, fs, hfs, hcreated⟩⟩, ?_⟩
  · simpa [hid] using hsends
  · rw [hafter, hbackend]
  · rw [hafter, hbackend]
    exact (Store.object?_putObject ..).trans (if_pos ⟨rfl, rfl⟩)
  · rw [hafter, hbackend]
    exact hnamed.succ
  · rw [hsaved, hresponse, Reply.jsonObject_received (by decide) (by decide)
      (Objects.isPlain_assembled _ _ _ _ hsends.plain)
      (Objects.depth_assembled_le _ _ _ _ hinner)]

/-- An object that a client has saved stands in the store, with the members that the server adds. -/
theorem deposited_of_save (hidok : Unreserved o.id)
    (hidentified : AllIdentified fresh c.site.backend)
    (hdepth : (Json.obj (if o.id = "" then o.creation withAcl else o.replacement)).depth ≤ 127) :
    ∃ data id created etag,
      Deposited fresh c.site.backend
        (ObjectBucket.save (Backend.engine fresh) now b o withAcl c).2.site.backend b.name o withAcl
        data id created etag ∧
      saved = .ofFields b.name
        (Objects.assembled data id created etag (fresh c.site.backend.calls).now) := by
  by_cases hid : o.id = ""
  · rw [if_pos hid] at hdepth
    exact deposited_of_creation hnames hserver hb hplain hacl h hid hdepth
  · rw [if_neg hid] at hdepth
    exact deposited_of_replacement hnames hserver hb hplain hacl h hid hidok hidentified hdepth

end

end

/-! ### Objects that stay -/

section
variable {fresh : Nat → Fresh} {before after : Backend} {bucket : String} {o : StoredObject}
  {withAcl : Bool} {data : Json.Fields} {id created etag : String}

theorem Deposited.isDeleted
    (h : Deposited fresh before after bucket o withAcl data id created etag) (now : Timestamp) :
    isDeleted (Objects.assembled data id created etag now) = false := by
  have hget :=
    (Objects.get?_assembled data id created etag now Reserved.deleted).trans h.sends.deleted
  rw [Server.isDeleted, hget]

/-- Calls about other entries leave a saved object as it is. -/
theorem Deposited.stored_answerAll (hnames : Names fresh)
    (h : Deposited fresh before after bucket o withAcl data id created etag) {calls : List Call}
    (hothers : ∀ d ∈ calls, d.entry? ≠ some (.object, bucket, id)) :
    (after.answerAll fresh calls).store.object? bucket id
      = some (Objects.assembled data id created etag (fresh before.calls).now) := by
  rw [← h.stored]
  refine Store.object?_of_held? (Backend.held?_answerAll fresh calls after fun d hd n hn => ?_)
  refine place?_ne_of_entry? (hothers d hd) (fun b he => ?_) rfl
  have hnew := (h.named.mono hn).not_new hnames.neverRepeats
  rw [(Place.object.inj he).2] at hnew
  exact hnew (List.mem_cons_self ..)

theorem Deposited.get_of_takes (hnames : Names fresh)
    (h : Deposited fresh before after bucket o withAcl data id created etag)
    (hb : Unreserved bucket) (hbne : bucket ≠ "") {calls : List Call}
    (hothers : ∀ d ∈ calls, d.entry? ≠ some (.object, bucket, id)) {reader : Client Unit Backend}
    (hbackend : reader.site.backend = after.answerAll fresh calls) {now timeout : Int}
    (htakes : Takes fresh reader now (Operation.getObject ⟨bucket, timeout⟩ id false).plan.steps) :
    (ObjectBucket.get (Backend.engine fresh) now ⟨bucket, timeout⟩ id false reader).1
      = .success (.ofFields bucket
        (Objects.assembled data id created etag (fresh before.calls).now)) := by
  have hstored := h.stored_answerAll hnames hothers
  rw [← hbackend] at hstored
  have hplain := Objects.isPlain_assembled id created etag (fresh before.calls).now h.sends.plain
  have hdepth := Objects.depth_assembled_le id created etag (fresh before.calls).now h.depth
  have hvisible := h.isDeleted (fresh before.calls).now
  generalize Objects.assembled data id created etag (fresh before.calls).now = fs at *
  exact Server.get_of_takes (b := ⟨bucket, timeout⟩) hb hbne h.unreserved h.full.1 htakes hstored
    hvisible hplain hdepth

end

/-- What a client gets back of an object that it saves in a store. -/
structure GivesBack (s : Store) (b : Bucket) (o : StoredObject) (withAcl : Bool)
    (saved : StoredObject) : Prop where
  bucket : saved.bucket = b.name
  id : saved.id ≠ "" ∧ (o.id ≠ "" → saved.id = o.id)
  etag : saved.etag ≠ ""
  createdAt : saved.createdAt ≠ ""
  updatedAt : saved.updatedAt ≠ ""
  deleted : saved.deleted = false
  data : saved.data = Reserved.strip o.data
  acl : saved.acl =
    if o.id ≠ "" ∨ withAcl = true then o.acl.filter fun v => v.obj?.isSome else none
  /-- An object that was there keeps its time. -/
  old : o.id ≠ "" → ∃ fs, s.object? b.name o.id = some fs ∧
    fs.get? Reserved.createdAt = some (.str saved.createdAt)

theorem Deposited.givesBack {fresh : Nat → Fresh} {before after : Backend} {b : Bucket}
    {o : StoredObject} {withAcl : Bool} {data : Json.Fields} {id created etag : String}
    (h : Deposited fresh before after b.name o withAcl data id created etag) (now : Timestamp) :
    GivesBack before.store b o withAcl
      (.ofFields b.name (Objects.assembled data id created etag now)) := by
  rw [h.sends.ofFields_assembled]
  obtain ⟨hid, hcreated, hetag⟩ := h.full
  refine ⟨rfl, ⟨hid, fun hne => (h.old hne).1⟩, hetag, hcreated, Timestamp.text_ne_empty now, rfl,
    rfl, ?_, fun hne => (h.old hne).2⟩
  dsimp only
  split <;> rfl

/-- An object that is saved comes back as it was given, with what the server adds; and while no call
is about it, every client that the server takes reads the same object. -/
theorem save_then_get {fresh : Nat → Fresh} (hnames : Names fresh) {c : Client Unit Backend}
    (hreached : Reached fresh c.site.backend) (hserver : c.service.credentials.AtServer)
    {b : Bucket} (hb : Unreserved b.name) {o : StoredObject} (hid : Unreserved o.id)
    (hplain : (Json.obj o.data).isPlain = true) (hacl : ∀ a, o.acl = some a → a.isPlain = true)
    {withAcl : Bool}
    (hdepth : (Json.obj (if o.id = "" then o.creation withAcl else o.replacement)).depth ≤ 127)
    {now : Int} {saved : StoredObject}
    (h : (ObjectBucket.save (Backend.engine fresh) now b o withAcl c).1 = .success saved) :
    GivesBack c.site.backend.store b o withAcl saved ∧
      ∀ (calls : List Call) (reader : Client Unit Backend) (later : Int) (timeout : Int),
        (∀ d ∈ calls, d.entry? ≠ some (.object, b.name, saved.id)) →
        reader.site.backend = (ObjectBucket.save (Backend.engine fresh) now b o withAcl
          c).2.site.backend.answerAll fresh calls →
        Takes fresh reader later
          (Operation.getObject ⟨b.name, timeout⟩ saved.id false).plan.steps →
        (ObjectBucket.get (Backend.engine fresh) later ⟨b.name, timeout⟩ saved.id false reader).1
          = .success saved := by
  obtain ⟨data, id, created, etag, hdeposited, rfl⟩ := deposited_of_save hnames hserver hb hplain
    hacl h hid (identified_of_reached hreached) hdepth
  refine ⟨hdeposited.givesBack _, ?_⟩
  intro calls reader later timeout hothers hbackend htakes
  have hsame : (StoredObject.ofFields b.name (Objects.assembled data id created etag
      (fresh c.site.backend.calls).now)).id = id := by
    rw [hdeposited.sends.ofFields_assembled]
  have hbne : b.name ≠ "" := (request_of_save h).1
  rw [hsame] at hothers htakes ⊢
  exact hdeposited.get_of_takes hnames hb hbne hothers hbackend htakes

theorem names_numbered : Names numbered where
  neverRepeats := neverRepeats_numbered
  usable := by
    have hname {c : Char} (hc : Percent.isUnreserved c.toNat = true) (n : Nat) :
        String.ofList (c :: Numeral.write n) ≠ "" ∧
          Unreserved (String.ofList (c :: Numeral.write n)) := by
      refine ⟨fun h => ?_, fun d hd => ?_⟩
      · cases String.ofList_injective (h.trans (rfl : "" = String.ofList []))
      · rw [String.toList_ofList, List.mem_cons] at hd
        rcases hd with rfl | hd
        · exact hc
        · obtain ⟨hlow, hhigh⟩ := Numeral.toNat_of_isDigit (Numeral.isDigit_of_mem_write hd)
          unfold Percent.isUnreserved
          simp [hlow, hhigh]
    intro n x hx
    simp only [Fresh.names, numbered, List.mem_cons, List.not_mem_nil, or_false] at hx
    rcases hx with rfl | rfl
    · exact hname (by decide) n
    · exact hname (by decide) n

/-- An object that is marked as deleted is saved, with data under names that look special, and read
after another object of its bucket was made. -/
theorem save_then_get_of_marked :
    let service : Service Unit :=
      ⟨⟨"http://mock", "tenant", "app-id", "app-key", ""⟩, {}, {}, .new 1 1, 60⟩
    let headers : Pairs := [("X-Application-Id", "app-id"), ("X-Application-Key", "app-key"),
      ("Content-Type", "application/json")]
    let make : Call :=
      ⟨"POST", "/1/tenant/objects/t", "", headers, Utf8.ofString "\x7b\x7d"⟩
    let mark : Call := ⟨"DELETE", "/1/tenant/objects/t/i0", "deleteMark=1", headers, []⟩
    let marked := (Step.call mark).run numbered ((Step.call make).run numbered {})
    let b : Bucket := ⟨"t", 5⟩
    let o : StoredObject :=
      { id := "i0", acl := some (.obj []),
        data := [("$full_update", .int 1), ("_deleted", .bool true), ("a", .int 2)] }
    let r := ObjectBucket.save (Backend.engine numbered) 0 b o false ⟨service, ⟨{}, marked⟩⟩
    let reader : Client Unit Backend :=
      ⟨service, ⟨{}, r.2.site.backend.answerAll numbered [make]⟩⟩
    (marked.store.object? "t" "i0").map isDeleted = some true ∧
      ∃ saved, r.1 = .success saved ∧ GivesBack marked.store b o false saved ∧
        (ObjectBucket.get (Backend.engine numbered) 0 b saved.id false reader).1
          = .success saved := by
  intro service headers make mark marked b o r reader
  have hmake : make.action? = some (.createObject "t") := by decide +kernel
  have hmark : mark.action? = some (.deleteObject "t" "i0") := by decide +kernel
  have hreached : Reached numbered marked :=
    .call (fun _ _ h => by cases hmark.symm.trans h)
      (.call (fun _ _ h => by cases hmake.symm.trans h) .empty)
  have hok : r.1.value?.isSome = true := by decide +kernel
  obtain ⟨saved, hsaved⟩ := Outcome.exists_of_isSome_value? hok
  have hserver : service.credentials.AtServer := by decide +kernel
  obtain ⟨hgives, hread⟩ := save_then_get names_numbered (c := ⟨service, ⟨{}, marked⟩⟩) hreached
    hserver (b := b) (by decide) (o := o) (by decide) (by decide) (by
      rintro a ⟨⟩
      decide) (by decide +kernel) hsaved
  have hid : saved.id = "i0" := hgives.id.2 (by decide)
  refine ⟨by decide +kernel, saved, hsaved, hgives, hread [make] reader 0 5 ?_
    (by simp only [reader, r]) ?_⟩
  · rw [hid]
    decide +kernel
  · rw [hid]
    exact takes_of_no_session hserver rfl rfl rfl (by decide +kernel) nofun

end Server
end AppBackend
