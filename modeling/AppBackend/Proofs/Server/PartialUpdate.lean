import AppBackend.Proofs.Client.Operation
import AppBackend.Proofs.Json.RoundTrip
import AppBackend.Proofs.Server.Changes

/-!
# Partial updates

An update of some members of an object, from the client's arguments to the object that the server
keeps. The client leaves out the reserved members; the server gives a meaning to one more. Main
statement: `update_touches_only_given_iff`, an update that succeeds touches only what it is given
just when that member is not given.
-/

namespace AppBackend

/-! ### What is sent -/

namespace StoredObject

theorem get?_partialUpdate (data : Json.Fields) (acl : Option Json) (key : String) :
    (partialUpdate data acl).get? key =
      if key = Reserved.acl then acl
      else if key ∈ Reserved.keys then none else data.get? key := by
  cases acl with
  | none =>
    rw [partialUpdate, Reserved.strip, Keyed.get?_eraseAll]
    by_cases hk : key = Reserved.acl
    · subst hk
      rfl
    · rw [if_neg hk]
  | some a =>
    rw [partialUpdate, Keyed.get?_insert, Reserved.strip, Keyed.get?_eraseAll]
    by_cases hk : key = Reserved.acl
    · rw [if_pos hk.symm, if_pos hk]
    · rw [if_neg (Ne.symm hk), if_neg hk]

theorem ascending_partialUpdate {data : Json.Fields} (h : Keyed.Ascending data)
    (acl : Option Json) : Keyed.Ascending (partialUpdate data acl) := by
  cases acl with
  | none => exact h.eraseAll _
  | some a => exact (h.eraseAll _).insert _ _

theorem isPlain_partialUpdate {data : Json.Fields} {acl : Option Json}
    (hdata : (Json.obj data).isPlain = true) (hacl : ∀ a, acl = some a → a.isPlain = true) :
    (Json.obj (partialUpdate data acl)).isPlain = true := by
  have hstrip := Json.isPlain_eraseAll hdata Reserved.keys
  cases acl with
  | none => exact hstrip
  | some a => exact Json.isPlain_insert hstrip Reserved.acl (hacl a rfl)

end StoredObject

namespace Server

/-! ### What the server does -/

namespace Objects

theorem get?_renew (fs : Json.Fields) (etag : String) (now : Timestamp) (key : String) :
    (renew fs etag now).get? key =
      if key = Reserved.updatedAt then some (.str now.text)
      else if key = Reserved.etag then some (.str etag) else fs.get? key := by
  rw [renew, Keyed.get?_insert, Keyed.get?_insert]
  by_cases hu : key = Reserved.updatedAt
  · rw [if_pos hu.symm, if_pos hu]
  · rw [if_neg (Ne.symm hu), if_neg hu]
    by_cases he : key = Reserved.etag
    · rw [if_pos he.symm, if_pos he]
    · rw [if_neg (Ne.symm he), if_neg he]

/-- An update that is not refused puts the changed object in the place of the one there. -/
theorem putObject_of_update {s s' : Store} {f : Fresh} {c : Call} {bucket id : String}
    {reply : Reply} (h : update s f c bucket id = .ok (reply, s')) :
    ∃ given fs gs, Json.ofBytes? c.body = some (.obj given) ∧ s.object? bucket id = some fs ∧
      changed fs given = .ok gs ∧ s' = s.putObject bucket id (renew gs f.first f.now) := by
  obtain ⟨given, hgiven, h⟩ := exists_of_bind_eq_ok h
  obtain ⟨fs, hfs, h⟩ := exists_of_bind_eq_ok h
  obtain ⟨u, -, h⟩ := exists_of_bind_eq_ok h
  obtain ⟨gs, hgs, h⟩ := exists_of_bind_eq_ok h
  exact ⟨given, fs, gs, Call.ofBytes?_of_object hgiven, object?_of_lookUp hfs, hgs,
    (store_of_ok h).symm⟩

/-- Without the member for full updates a change merges what is given; with it, its value takes the
place of all data. -/
theorem changed_cases {fs given gs : Json.Fields} (h : changed fs given = .ok gs) :
    (given.get? fullUpdateKey = none ∧ gs = fs.merge given) ∨
      ∃ data, given.get? fullUpdateKey = some (.obj data) ∧ gs = replaced fs data := by
  unfold changed at h
  split at h
  · rename_i data hdata
    exact Or.inr ⟨data, hdata, (Except.ok.inj h).symm⟩
  · cases h
  · rename_i hnone
    exact Or.inl ⟨hnone, (Except.ok.inj h).symm⟩

theorem get?_replaced (fs data : Json.Fields) {key : String} (hk : key ∉ kept) :
    (replaced fs data).get? key = data.get? key := by
  unfold replaced
  generalize kept = keys at hk
  induction keys generalizing data with
  | nil => rfl
  | cons k keys ih =>
    have hne : k ≠ key := fun e => hk (e ▸ List.mem_cons_self ..)
    rw [List.foldl_cons, ih _ fun hm => hk (List.mem_cons_of_mem _ hm)]
    split
    · exact Keyed.get?_insert_of_ne data _ hne
    · rfl

end Objects

/-! ### What may change -/

/-- The members of an object after a change that touches only what it is given. -/
structure TouchesOnly (data : Json.Fields) (acl : Option Json) (f : Fresh) (fs gs : Json.Fields) :
    Prop where
  given : ∀ key v, key ∉ Reserved.keys → data.get? key = some v → gs.get? key = some v
  acl : gs.get? Reserved.acl = acl.or (fs.get? Reserved.acl)
  etag : gs.get? Reserved.etag = some (.str f.first)
  updatedAt : gs.get? Reserved.updatedAt = some (.str f.now.text)
  others : ∀ key, key ∈ Reserved.keys ∨ data.get? key = none →
    key ≠ Reserved.acl → key ≠ Reserved.etag → key ≠ Reserved.updatedAt →
    gs.get? key = fs.get? key
  all : ∀ key, (fs.get? key).isSome = true → (gs.get? key).isSome = true

theorem touchesOnly_merge {data : Json.Fields} (hs : Keyed.Ascending data) (acl : Option Json)
    (f : Fresh) (fs : Json.Fields) :
    TouchesOnly data acl f fs
      (Objects.renew (fs.merge (StoredObject.partialUpdate data acl)) f.first f.now) := by
  have hget (key : String) :
      (Objects.renew (fs.merge (StoredObject.partialUpdate data acl)) f.first f.now).get? key =
        if key = Reserved.updatedAt then some (.str f.now.text)
        else if key = Reserved.etag then some (.str f.first)
        else (if key = Reserved.acl then acl
          else if key ∈ Reserved.keys then none else data.get? key).or (fs.get? key) := by
    rw [Objects.get?_renew, Keyed.get?_merge (StoredObject.ascending_partialUpdate hs acl),
      StoredObject.get?_partialUpdate]
  refine ⟨?_, ?_, ?_, ?_, ?_, ?_⟩
  · intro key v hk hv
    have hu : key ≠ Reserved.updatedAt := fun e => hk (by simp [Reserved.keys, e])
    have he : key ≠ Reserved.etag := fun e => hk (by simp [Reserved.keys, e])
    have ha : key ≠ Reserved.acl := fun e => hk (by simp [Reserved.keys, e])
    rw [hget, if_neg hu, if_neg he, if_neg ha, if_neg hk, hv]
    rfl
  · rw [hget, if_neg (by decide), if_neg (by decide), if_pos rfl]
  · rw [hget, if_neg (by decide), if_pos rfl]
  · rw [hget, if_pos rfl]
  · intro key hk ha he hu
    rw [hget, if_neg hu, if_neg he, if_neg ha]
    rcases hk with hk | hk
    · rw [if_pos hk]
      rfl
    · rw [hk, ite_self]
      rfl
  · intro key hk
    rw [hget]
    split
    · rfl
    split
    · rfl
    · rw [Option.isSome_or, hk, Bool.or_true]

theorem get?_ne_self (fs : Json.Fields) (key : String) : fs.get? key ≠ some (.obj fs) := by
  intro h
  have hmem := Keyed.mem_of_get? h
  have hlt := List.sizeOf_lt_of_mem hmem
  simp only [Prod.mk.sizeOf_spec, Json.obj.sizeOf_spec] at hlt
  omega

theorem not_touchesOnly_replaced {data inner : Json.Fields}
    (h : data.get? fullUpdateKey = some (.obj inner)) (acl : Option Json) (f : Fresh)
    (fs : Json.Fields) :
    ¬ TouchesOnly data acl f fs (Objects.renew (Objects.replaced fs inner) f.first f.now) := by
  intro ht
  have hgiven := ht.given fullUpdateKey _ (by decide) h
  rw [Objects.get?_renew, if_neg (by decide), if_neg (by decide),
    Objects.get?_replaced fs inner (by decide)] at hgiven
  exact get?_ne_self inner fullUpdateKey hgiven

/-! ### From the client to the store -/

theorem applyAll_updateObject {d : Draft} (h : d.missing? = none) (b : Bucket) (id etag : String)
    (data : Json.Fields) (acl : Option Json) :
    (d.applyAll (Operation.updateObject b id etag data acl).plan.steps).method = .put ∧
      (d.applyAll (Operation.updateObject b id etag data acl).plan.steps).body
        = (Json.obj (StoredObject.partialUpdate data acl)).bytes := by
  have hput := Draft.foldl_put d [b.name, id] etag (StoredObject.partialUpdate data acl)
  rw [Draft.applyAll_of_complete h]
  exact ⟨congrArg Draft.method hput, congrArg Draft.body hput⟩

/-- An update through a client that succeeds has put the changed object in the place of the one
there, and what was sent is what was read. -/
theorem putObject_of_success {fresh : Nat → Fresh} {c : Client Unit Backend} {now : Int}
    {b : Bucket} {id etag : String} {data : Json.Fields} {acl : Option Json} {bucket i : String}
    (hplain : (Json.obj (StoredObject.partialUpdate data acl)).isPlain = true)
    (hdepth : (Json.obj (StoredObject.partialUpdate data acl)).depth ≤ 127)
    (hroute : routeOf? ((c.service.draft now).applyAll
      (Operation.updateObject b id etag data acl).plan.steps).build.url = some (.object bucket i))
    (hok : (ObjectBucket.update (Backend.engine fresh) now b id etag data acl c).1.value?.isSome
      = true) :
    ∃ fs gs, c.site.backend.store.object? bucket i = some fs ∧
      Objects.changed fs (StoredObject.partialUpdate data acl) = .ok gs ∧
      (ObjectBucket.update (Backend.engine fresh) now b id etag data acl c).2.site.backend.store
        = c.site.backend.store.putObject bucket i
          (Objects.renew gs (fresh c.site.backend.calls).first
            (fresh c.site.backend.calls).now) := by
  let o := Operation.updateObject b id etag data acl
  have hrun : (o.run (Backend.engine fresh) now c).1.value?.isSome = true :=
    (Operation.value?_isSome_forget _).trans hok
  have hjob : o.plan.job = .plain := rfl
  obtain ⟨r, hr, hclient⟩ := Operation.request_of_success hrun
  rw [hjob] at hr hclient
  have hmissing := (call_of_request_success hr).1
  obtain ⟨hmethod, hbody⟩ := applyAll_updateObject hmissing b id etag data acl
  have htakes : (Route.object bucket i).takes
      ((c.service.draft now).applyAll o.plan.steps).build.method.name = true := by
    show (Route.object bucket i).takes
      ((c.service.draft now).applyAll o.plan.steps).method.name = true
    rw [hmethod]
    rfl
  obtain ⟨call, reply, s', hcall, hperform, hstore⟩ :=
    perform_of_request_success hr hroute htakes
  obtain ⟨hcallMethod, hcallBody, -⟩ := callOf?_spec hcall
  have hput : call.method = "PUT" := by
    rw [hcallMethod]
    show ((c.service.draft now).applyAll o.plan.steps).method.name = "PUT"
    rw [hmethod]
    rfl
  have hupdate : Objects.update c.site.backend.store (fresh c.site.backend.calls) call bucket i
      = .ok (reply, s') := by
    unfold Route.perform at hperform
    rw [hput] at hperform
    exact hperform
  obtain ⟨given, fs, gs, hgiven, hfs, hgs, hs'⟩ := Objects.putObject_of_update hupdate
  have hread : given = StoredObject.partialUpdate data acl := by
    have hbytes : call.body = (Json.obj (StoredObject.partialUpdate data acl)).bytes :=
      hcallBody.trans hbody
    rw [hbytes, Json.ofBytes?_bytes hplain hdepth] at hgiven
    simpa using hgiven.symm
  rw [hread] at hgs
  have hleft : (ObjectBucket.update (Backend.engine fresh) now b id etag data acl c).2
      = (c.request (Backend.engine fresh) now o.plan.steps .plain o.plan.timeout).2 := hclient
  refine ⟨fs, gs, hfs, hgs, ?_⟩
  rw [hleft, ← hs']
  exact hstore

/-- An update that succeeds touches only what it is given just when the member for full updates is
not given; every other entry of the store stays in either case. -/
theorem update_touches_only_given_iff (fresh : Nat → Fresh) (c : Client Unit Backend) (now : Int)
    (b : Bucket) (id etag : String) (data : Json.Fields) (acl : Option Json) {bucket i : String}
    {fs : Json.Fields} (hdata : (Json.obj data).isPlain = true)
    (hacl : ∀ a, acl = some a → a.isPlain = true)
    (hdepth : (Json.obj (StoredObject.partialUpdate data acl)).depth ≤ 127)
    (hroute : routeOf? ((c.service.draft now).applyAll
      (Operation.updateObject b id etag data acl).plan.steps).build.url = some (.object bucket i))
    (hfs : c.site.backend.store.object? bucket i = some fs)
    (hok : (ObjectBucket.update (Backend.engine fresh) now b id etag data acl c).1.value?.isSome
      = true) :
    let s := c.site.backend.store
    let c' := (ObjectBucket.update (Backend.engine fresh) now b id etag data acl c).2
    let s' := c'.site.backend.store
    ((∃ gs, s'.object? bucket i = some gs ∧
        TouchesOnly data acl (fresh c.site.backend.calls) fs gs) ↔
      data.get? fullUpdateKey = none) ∧
    (∀ b' i', ¬ (b' = bucket ∧ i' = i) → s'.object? b' i' = s.object? b' i') ∧
    s'.files = s.files ∧ s'.sessions = s.sessions := by
  intro s c' s'
  obtain ⟨fs', gs, hfs', hgs, hs'⟩ := putObject_of_success
    (StoredObject.isPlain_partialUpdate hdata hacl) hdepth hroute hok
  obtain rfl : fs' = fs := Option.some.inj (hfs'.symm.trans hfs)
  have hstored : s'.object? bucket i = some (Objects.renew gs (fresh c.site.backend.calls).first
      (fresh c.site.backend.calls).now) := by
    rw [show s' = _ from hs', Store.object?_putObject, if_pos ⟨rfl, rfl⟩]
  have hfull : (StoredObject.partialUpdate data acl).get? fullUpdateKey
      = data.get? fullUpdateKey := by
    rw [StoredObject.get?_partialUpdate, if_neg (by decide), if_neg (by decide)]
  have hasc : Keyed.Ascending data := (Json.isPlain_obj.1 hdata).1
  refine ⟨?_, ?_, ?_, ?_⟩
  · rcases Objects.changed_cases hgs with ⟨hnone, rfl⟩ | ⟨inner, hinner, rfl⟩
    · rw [hfull] at hnone
      exact ⟨fun _ => hnone, fun _ => ⟨_, hstored, touchesOnly_merge hasc acl _ fs'⟩⟩
    · rw [hfull] at hinner
      constructor
      · rintro ⟨gs, hgs, ht⟩
        rw [← Option.some.inj (hstored.symm.trans hgs)] at ht
        exact absurd ht (not_touchesOnly_replaced hinner acl _ fs')
      · intro hnone
        rw [hnone] at hinner
        cases hinner
  · intro b' i' hne
    rw [show s' = _ from hs', Store.object?_putObject]
    exact if_neg fun h => hne ⟨h.1.symm, h.2.symm⟩
  · rw [show s' = _ from hs']
    rfl
  · rw [show s' = _ from hs']
    rfl

/-- An object with one member is given another, and then the member for full updates. -/
theorem update_touches_only_given_iff_of_two :
    let fresh : Nat → Fresh := fun _ => ⟨⟨0, 0⟩, "e", "u"⟩
    let fs : Json.Fields := [("b", .int 2)]
    let service : Service Unit :=
      ⟨⟨"http://mock", "tenant", "app-id", "app-key", ""⟩, {}, {}, .new 1 1, 60⟩
    let c : Client Unit Backend := ⟨service, ⟨{}, { store := { objects := [("t", [("i", fs)])] } }⟩⟩
    let plain : Json.Fields := [("a", .int 1)]
    let full : Json.Fields := [("$full_update", .obj [("a", .int 1)])]
    (∃ gs, (ObjectBucket.update (Backend.engine fresh) 0 ⟨"t", 5⟩ "i" "" plain none
        c).2.site.backend.store.object? "t" "i" = some gs ∧
      TouchesOnly plain none (fresh c.site.backend.calls) fs gs) ∧
    ¬ ∃ gs, (ObjectBucket.update (Backend.engine fresh) 0 ⟨"t", 5⟩ "i" "" full none
        c).2.site.backend.store.object? "t" "i" = some gs ∧
      TouchesOnly full none (fresh c.site.backend.calls) fs gs := by
  intro fresh fs service c plain full
  have hfs : c.site.backend.store.object? "t" "i" = some fs := rfl
  have hplain := (update_touches_only_given_iff fresh c 0 ⟨"t", 5⟩ "i" "" plain none
    (by decide +kernel) (by simp) (by decide +kernel) (by decide +kernel) hfs
    (by decide +kernel)).1
  have hfull := (update_touches_only_given_iff fresh c 0 ⟨"t", 5⟩ "i" "" full none
    (by decide +kernel) (by simp) (by decide +kernel) (by decide +kernel) hfs
    (by decide +kernel)).1
  have hnone : plain.get? fullUpdateKey = none := rfl
  have hsome : full.get? fullUpdateKey ≠ none := nofun
  exact ⟨hplain.2 hnone, fun h => hsome (hfull.1 h)⟩

end Server
end AppBackend
