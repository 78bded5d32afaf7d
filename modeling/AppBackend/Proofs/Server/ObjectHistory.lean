import AppBackend.Proofs.Json.Keys
import AppBackend.Proofs.Server.ConditionalWrites
import AppBackend.Proofs.Server.Locality
import AppBackend.Proofs.Server.PartialUpdate

/-!
# Objects over time

What every object of a store has that came about by operations on objects: the id that a call found
new when it made the object, and the time of that. The client sends neither in an update, so no
update takes them away. Main statement: `identified_of_reached`.
-/

namespace AppBackend

/-! ### Members that stay -/

theorem Timestamp.text_ne_empty (t : Timestamp) : t.text ≠ "" := by
  intro h
  have hlist := congrArg String.toList h
  rw [Timestamp.text, String.toList_ofList] at hlist
  simp at hlist

namespace Server

/-- Members by which an object is told from all others: the id that one of the first `n` calls found
new, and a time. -/
structure Identified (fresh : Nat → Fresh) (n : Nat) (id : String) (fs : Json.Fields) : Prop where
  ownId : fs.get? Reserved.id = some (.str id)
  createdAt : ∃ t, t ≠ "" ∧ fs.get? Reserved.createdAt = some (.str t)
  named : NamedBefore fresh n id

section
variable {fresh : Nat → Fresh} {n : Nat} {id : String} {fs gs : Json.Fields}

theorem Identified.succ (h : Identified fresh n id fs) : Identified fresh (n + 1) id fs :=
  ⟨h.ownId, h.createdAt, h.named.succ⟩

theorem Identified.of_same (h : Identified fresh n id fs)
    (hsame : ∀ key ∈ Objects.kept, gs.get? key = fs.get? key) : Identified fresh n id gs where
  ownId := (hsame _ (by decide)).trans h.ownId
  createdAt := by
    obtain ⟨t, ht, hget⟩ := h.createdAt
    exact ⟨t, ht, (hsame _ (by decide)).trans hget⟩
  named := h.named

namespace Objects

theorem get?_renew_of_kept {key : String} (hk : key ∈ kept) (fs : Json.Fields) (etag : String)
    (now : Timestamp) : (renew fs etag now).get? key = fs.get? key := by
  have hu : key ≠ Reserved.updatedAt := by
    rintro rfl
    exact absurd hk (by decide)
  have he : key ≠ Reserved.etag := by
    rintro rfl
    exact absurd hk (by decide)
  rw [get?_renew, if_neg hu, if_neg he]

/-- New data with the id and the time of the object that they replace. -/
theorem replaced_of_identified (h : Identified fresh n id fs) (data : Json.Fields) :
    ∃ t, t ≠ "" ∧ fs.get? Reserved.createdAt = some (.str t) ∧
      replaced fs data
        = (data.insert Reserved.id (.str id)).insert Reserved.createdAt (.str t) := by
  obtain ⟨t, ht, hget⟩ := h.createdAt
  refine ⟨t, ht, hget, ?_⟩
  simp [replaced, kept, h.ownId, hget]

/-- A change that does not give the members by which objects are told apart leaves them. -/
theorem identified_of_changed (h : Identified fresh n id fs) {given : Json.Fields}
    (hgiven : ∀ m ∈ given, m.1 ∉ kept) (hchanged : changed fs given = .ok gs) :
    Identified fresh n id gs := by
  obtain ⟨-, rfl⟩ | ⟨data, -, rfl⟩ := changed_cases hchanged
  · refine h.of_same fun key hkey => Keyed.get?_merge_of_not_key ?_ fs
    rintro m hm rfl
    exact hgiven m hm hkey
  · obtain ⟨t, ht, -, hreplaced⟩ := replaced_of_identified h data
    rw [hreplaced]
    refine ⟨?_, ⟨t, ht, Keyed.get?_insert_self ..⟩, h.named⟩
    rw [Keyed.get?_insert_of_ne _ _ (by decide), Keyed.get?_insert_self]

end Objects

end

/-! ### One call -/

/-- Every object is told from all others. -/
def AllIdentified (fresh : Nat → Fresh) (b : Backend) : Prop :=
  ∀ bucket id fs, b.store.object? bucket id = some fs → Identified fresh b.calls id fs

/-- A call that gives no object another id or time. -/
def Call.KeepsIdentity (c : Call) : Prop :=
  ∀ bucket id, c.action? = some (.updateObject bucket id) →
    ∀ given, Json.ofBytes? c.body = some (.obj given) → ∀ m ∈ given, m.1 ∉ Objects.kept

section
variable {fresh : Nat → Fresh} {s s' : Store} {f : Fresh} {c : Call} {reply : Reply} {n : Nat}

theorem Store.object?_of_held? {bucket id : String}
    (h : s'.held? (.object bucket id) = s.held? (.object bucket id)) :
    s'.object? bucket id = s.object? bucket id :=
  Option.map_injective (fun _ _ => Held.object.inj) h

theorem object?_of_run {a : Action} (h : a.run s f c = .ok (reply, s')) {bucket id : String}
    (hplace : a.place? f c ≠ some (.object bucket id)) :
    s'.object? bucket id = s.object? bucket id := by
  refine Store.object?_of_held? ?_
  obtain ⟨rfl, -⟩ | ⟨p, x, hp, -, hset, -⟩ := Action.does_run h
  · rfl
  · refine hset.of_ne ?_
    rintro rfl
    exact hplace hp

/-- An object that was put, or one that was there before. -/
theorem identified_putObject {bucket id b i : String} {fs gs : Json.Fields}
    (hold : ∀ b i gs, s.object? b i = some gs → Identified fresh n i gs)
    (hput : Identified fresh (n + 1) id fs)
    (h : (s.putObject bucket id fs).object? b i = some gs) : Identified fresh (n + 1) i gs := by
  rw [Store.object?_putObject] at h
  split at h
  · rename_i hplace
    rw [← hplace.2, ← Option.some.inj h]
    exact hput
  · exact (hold b i gs h).succ

theorem Objects.identified_of_create {bucket : String}
    (h : create s (fresh n) c bucket = .ok (reply, s')) :
    ∃ fs, s' = s.putObject bucket (fresh n).first fs ∧
      Identified fresh (n + 1) (fresh n).first fs := by
  obtain ⟨given, -, h⟩ := exists_of_bind_eq_ok h
  refine ⟨_, (store_of_ok h).symm, ?_, ⟨(fresh n).now.text, Timestamp.text_ne_empty _, ?_⟩, ?_⟩
  · rw [get?_renew_of_kept (by decide), Keyed.get?_insert_of_ne _ _ (by decide),
      Keyed.get?_insert_self]
  · rw [get?_renew_of_kept (by decide), Keyed.get?_insert_self]
  · exact ⟨n, Nat.lt_succ_self n, List.mem_cons_self ..⟩

theorem Objects.identified_of_delete {bucket id b i : String} {gs : Json.Fields}
    (hold : ∀ b i gs, s.object? b i = some gs → Identified fresh n i gs)
    (h : delete s f c bucket id = .ok (reply, s')) (hgs : s'.object? b i = some gs) :
    Identified fresh (n + 1) i gs := by
  obtain ⟨fs, hfs, h⟩ := exists_of_bind_eq_ok h
  obtain ⟨u, -, h⟩ := exists_of_bind_eq_ok h
  split at h
  · obtain rfl := store_of_ok h
    refine identified_putObject hold ?_ hgs
    refine ((hold bucket id fs (object?_of_lookUp hfs)).succ).of_same fun key hkey => ?_
    have hne : Reserved.deleted ≠ key := by
      rintro rfl
      exact absurd hkey (by decide)
    rw [get?_renew_of_kept hkey, Keyed.get?_insert_of_ne _ _ hne]
  · obtain rfl := store_of_ok h
    rw [Store.object?_removeObject] at hgs
    split at hgs
    · cases hgs
    · exact (hold b i gs hgs).succ

/-- What an action leaves can be told apart if what it found could. -/
theorem identified_of_run {a : Action} (ha : c.action? = some a) (hkeeps : c.KeepsIdentity)
    (hold : ∀ b i gs, s.object? b i = some gs → Identified fresh n i gs)
    (h : a.run s (fresh n) c = .ok (reply, s')) {b i : String} {gs : Json.Fields}
    (hgs : s'.object? b i = some gs) : Identified fresh (n + 1) i gs := by
  by_cases hplace : a.place? (fresh n) c = some (.object b i)
  · cases a with
    | createObject bucket =>
      obtain ⟨fs, rfl, hput⟩ := Objects.identified_of_create h
      exact identified_putObject hold hput hgs
    | updateObject bucket id =>
      obtain ⟨given, fs, hs, hgiven, hfs, hchanged, rfl⟩ := Objects.putObject_of_update h
      refine identified_putObject hold ?_ hgs
      have hstays := Objects.identified_of_changed (hold bucket id fs hfs).succ
        (hkeeps bucket id ha given hgiven) hchanged
      exact hstays.of_same fun key hkey => Objects.get?_renew_of_kept hkey ..
    | deleteObject bucket id => exact Objects.identified_of_delete hold h hgs
    | logOut =>
      obtain ⟨token, -, hsession⟩ := Option.map_eq_some_iff.1 hplace
      cases hsession
    | _ => cases hplace
  · rw [object?_of_run h hplace] at hgs
    exact (hold b i gs hgs).succ

theorem AllIdentified.answer {b : Backend} (h : AllIdentified fresh b) (hkeeps : c.KeepsIdentity) :
    AllIdentified fresh (b.answer fresh c).2 := by
  intro bucket id fs hfs
  obtain ⟨hsame, -⟩ | ⟨a, reply, ha, hrun, -⟩ := answer_runs b.store (fresh b.calls) c
  · have hstore : (b.answer fresh c).2.store = b.store := hsame
    rw [hstore] at hfs
    exact (h bucket id fs hfs).succ
  · exact identified_of_run ha hkeeps h hrun hfs

end

end Server

/-! ### Operations -/

namespace Operation

/-- The operations on objects. -/
def onObjects : Operation → Bool
  | getObject .. | queryObjects .. | saveObject .. | updateObject .. | deleteObject .. => true
  | _ => false

end Operation

namespace StoredObject

theorem not_kept_of_replacement (o : StoredObject) :
    ∀ m ∈ o.replacement, m.1 ∉ Server.Objects.kept := by
  intro m hm
  rw [replacement, List.mem_singleton] at hm
  rw [hm]
  exact (by decide : fullUpdateKey ∉ Server.Objects.kept)

theorem not_kept_of_partialUpdate (data : Json.Fields) (acl : Option Json) :
    ∀ m ∈ partialUpdate data acl, m.1 ∉ Server.Objects.kept := by
  have hkept : ∀ key ∈ Server.Objects.kept, key ∈ Reserved.keys := by decide
  have hstrip : ∀ m ∈ Reserved.strip data, m.1 ∉ Server.Objects.kept := by
    intro m hm hkey
    rw [Reserved.strip, Keyed.eraseAll_eq_filter, List.mem_filter, decide_eq_true_eq] at hm
    exact hm.2 (hkept m.1 hkey)
  unfold partialUpdate
  cases acl with
  | none => exact hstrip
  | some acl =>
    intro m hm
    rcases Keyed.mem_insert hm with rfl | hm
    · exact (by decide : Reserved.acl ∉ Server.Objects.kept)
    · exact hstrip m hm

end StoredObject

/-- What an operation on objects sends in an update. -/
theorem Operation.body_of_put {o : Operation} (ho : o.onObjects = true) (d : Draft)
    (hput : (o.plan.steps.foldl Draft.change d).method = .put) :
    ∃ fs : Json.Fields, (o.plan.steps.foldl Draft.change d).body = (Json.obj fs).bytes ∧
      ∀ m ∈ fs, m.1 ∉ Server.Objects.kept := by
  cases o with
  | saveObject b object withAcl =>
    by_cases hid : object.id = ""
    · simp only [plan, if_pos hid, Draft.foldl_objectTarget, Draft.foldl_jsonBody] at hput
      cases hput
    · simp only [plan, if_neg hid, Draft.foldl_put]
      exact ⟨_, rfl, object.not_kept_of_replacement⟩
  | updateObject b id etag data acl =>
    simp only [plan, Draft.foldl_put]
    exact ⟨_, rfl, StoredObject.not_kept_of_partialUpdate data acl⟩
  | getObject b id mark =>
    simp only [plan, Draft.foldl_objectTarget, Draft.foldl_mark] at hput
    cases hput
  | queryObjects b params withCount => cases hput
  | deleteObject b id etag mark =>
    simp only [plan, Draft.foldl_objectTarget, List.foldl_cons, ObjectBucket.etagParam,
      Draft.change_appendParam, Draft.foldl_mark] at hput
    cases hput
  | _ => cases ho

namespace Server

theorem Route.method_of_updateObject {r : Route} {method bucket id : String}
    (h : r.action? method = some (.updateObject bucket id)) : method = "PUT" := by
  revert h
  fun_cases action? r method <;> intro h <;> first
    | rfl
    | cases h

/-- The call of an operation on objects gives no object another id or time. -/
theorem keepsIdentity_of_onObjects {o : Operation} (ho : o.onObjects = true) {d : Draft}
    {t : Transfer} {c : Call} (hcall : Backend.callOf? t = some c)
    (hmethod : t.request.method = (o.plan.steps.foldl Draft.change d).method)
    (hbody : c.body = (o.plan.steps.foldl Draft.change d).body) : c.KeepsIdentity := by
  intro bucket id ha given hgiven
  obtain ⟨raw, -, ha⟩ := Option.bind_eq_some_iff.1 ha
  obtain ⟨r, -, ha⟩ := Option.bind_eq_some_iff.1 ha
  have hput : (o.plan.steps.foldl Draft.change d).method = .put := by
    have hname := Route.method_of_updateObject ha
    rw [(callOf?_spec hcall).1, hmethod] at hname
    revert hname
    cases (o.plan.steps.foldl Draft.change d).method <;> decide
  obtain ⟨fs, hfs, hkept⟩ := Operation.body_of_put ho d hput
  rw [hbody, hfs] at hgiven
  intro m hm
  obtain ⟨f, hf, hkey⟩ := Json.key_of_ofBytes?_bytes hgiven m hm
  rw [← hkey]
  exact hkept f hf

/-! ### Histories -/

/-- Servers that come about by operations on objects, and by any other calls that update none. -/
inductive Reached (fresh : Nat → Fresh) : Backend → Prop where
  | empty : Reached fresh {}
  | operation {b : Backend} (service : Service Unit) (disk : Disk) (now : Int) {o : Operation}
      (ho : o.onObjects = true) (h : Reached fresh b) :
      Reached fresh ((Step.operation service disk now o).run fresh b)
  | call {b : Backend} {c : Call} (hc : ∀ bucket id, c.action? ≠ some (.updateObject bucket id))
      (h : Reached fresh b) : Reached fresh ((Step.call c).run fresh b)

theorem plain_of_onObjects {o : Operation} (ho : o.onObjects = true) : o.plan.job = .plain := by
  cases o <;> first
    | rfl
    | cases ho

section
variable {fresh : Nat → Fresh} {b : Backend}

/-- An operation on objects leaves the server alone, or makes one call that gives no object another
id or time. -/
theorem call_of_onObjects (service : Service Unit) (disk : Disk) (now : Int) {o : Operation}
    (ho : o.onObjects = true) :
    (Step.operation service disk now o).run fresh b = b ∨
      ∃ c : Call, c.KeepsIdentity ∧
        (Step.operation service disk now o).run fresh b = (b.answer fresh c).2 := by
  rw [Step.run, o.run_eq_plan]
  unfold Operation.forget Plan.run
  cases o.plan.refused? with
  | some f => exact Or.inl rfl
  | none =>
    dsimp only
    obtain ⟨f, hf⟩ | ⟨hm, x, seconds, -, hsite⟩ := Client.request_cases (Backend.engine fresh) now
      o.plan.steps o.plan.job o.plan.timeout ⟨service, ⟨disk, b⟩⟩
    · rw [hf]
      exact Or.inl rfl
    rw [hsite, plain_of_onObjects ho, run_plain]
    cases hcall : Backend.callOf?
        ⟨((service.draft now).applyAll o.plan.steps).build, effectiveTimeout seconds, none⟩ with
    | none => exact Or.inl rfl
    | some c =>
      have hdraft := Draft.applyAll_of_complete hm o.plan.steps
      refine Or.inr ⟨c, keepsIdentity_of_onObjects (d := service.draft now) ho hcall ?_ ?_, rfl⟩
      · exact congrArg Draft.method hdraft
      · exact (callOf?_spec hcall).2.1.trans (congrArg Draft.body hdraft)

theorem allIdentified_empty : AllIdentified fresh {} := by
  intro bucket id fs h
  cases h

theorem identified_of_reached (h : Reached fresh b) : AllIdentified fresh b := by
  induction h with
  | empty => exact allIdentified_empty
  | operation service disk now ho _ ih =>
    obtain hsame | ⟨c, hkeeps, hanswer⟩ := call_of_onObjects service disk now ho
    · rw [hsame]
      exact ih
    · rw [hanswer]
      exact ih.answer hkeeps
  | call hc _ ih => exact ih.answer fun bucket id ha => absurd ha (hc bucket id)

end

end Server
end AppBackend
