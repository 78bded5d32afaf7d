import AppBackend.Proofs.Json.Reading
import AppBackend.Proofs.Server.ObjectRoundTrip

/-!
# Identity of objects

What an object keeps in every run of operations on objects, and what tells it from all others: its
id, which no other object has, the time that it was given when it was made, and an etag of its own.
A client that names an object by its id gets no other. Main statement: `objects_keep_identity`.
-/

namespace AppBackend.Server

/-! ### Members that can be sent and read -/

/-- Members that are in order and not too deep. -/
structure Legible (fs : Json.Fields) : Prop where
  ordered : (Json.obj fs).isOrdered = true
  depth : (Json.obj fs).depth ≤ 127

section
variable {fs gs : Json.Fields}

theorem Legible.insert (h : Legible fs) (key : String) {v : Json} (hv : v.isOrdered = true)
    (hd : v.depth = 0) : Legible (fs.insert key v) :=
  ⟨Json.isOrdered_insert h.ordered key hv, Json.depth_insert_le h.depth key (by omega)⟩

theorem Legible.merge (h : Legible fs) (hg : Legible gs) : Legible (fs.merge gs) := by
  obtain ⟨hascending, hmembers⟩ := Json.isOrdered_obj.1 h.ordered
  have hfs := h.depth
  have hgs := hg.depth
  rw [Json.depth] at hfs hgs
  refine ⟨Json.isOrdered_obj.2 ⟨hascending.merge gs, fun m hm => ?_⟩, ?_⟩
  · rcases Keyed.mem_merge hm with hm | hm
    · exact hmembers m hm
    · exact (Json.isOrdered_obj.1 hg.ordered).2 m hm
  · have hmerged : Json.depthOfMembers (fs.merge gs) ≤ 126 := by
      refine Json.depthOfMembers_le fun m hm => ?_
      rcases Keyed.mem_merge hm with hm | hm
      · exact Nat.le_trans (Json.depth_le_of_mem hm) (by omega)
      · exact Nat.le_trans (Json.depth_le_of_mem hm) (by omega)
    rw [Json.depth]
    omega

theorem Legible.of_member (h : Legible fs) {key : String}
    (hget : fs.get? key = some (.obj gs)) : Legible gs := by
  have hmem := Keyed.mem_of_get? hget
  have hle : (Json.obj gs).depth ≤ Json.depthOfMembers fs := Json.depth_le_of_mem hmem
  have hdepth := h.depth
  rw [Json.depth] at hdepth
  exact ⟨(Json.isOrdered_obj.1 h.ordered).2 _ hmem, by omega⟩

theorem legible_of_ofBytes? {body : Bytes} (h : Json.ofBytes? body = some (.obj fs)) :
    Legible fs := ⟨(Json.fits_of_ofUnits? h).1, (Json.fits_of_ofUnits? h).2⟩

end

/-! ### Objects with an identity -/

/-- The id and the time that one of the first `n` calls gave, an etag and the time of a change. -/
structure Stamped (fresh : Nat → Fresh) (n : Nat) (id : String) (fs : Json.Fields) : Prop where
  ownId : fs.get? Reserved.id = some (.str id)
  made : ∃ k < n, (fresh k).first = id ∧
    fs.get? Reserved.createdAt = some (.str (fresh k).now.text)
  etag : ∃ e, fs.get? Reserved.etag = some (.str e)
  updatedAt : ∃ t, fs.get? Reserved.updatedAt = some (.str t)
  legible : Legible fs

section
variable {fresh : Nat → Fresh} {n : Nat} {id : String} {fs gs : Json.Fields}

theorem Stamped.succ (h : Stamped fresh n id fs) : Stamped fresh (n + 1) id fs := by
  obtain ⟨k, hk, hmade⟩ := h.made
  exact { h with made := ⟨k, Nat.lt_succ_of_lt hk, hmade⟩ }

theorem Stamped.identified (h : Stamped fresh n id fs) : Identified fresh n id fs := by
  obtain ⟨k, hk, rfl, hcreated⟩ := h.made
  exact ⟨h.ownId, ⟨_, Timestamp.text_ne_empty _, hcreated⟩, k, hk, List.mem_cons_self ..⟩

theorem Stamped.createdAt_eq (hnew : NeverRepeats fresh) {m : Nat} (h : Stamped fresh n id fs)
    (h' : Stamped fresh m id gs) : fs.get? Reserved.createdAt = gs.get? Reserved.createdAt := by
  obtain ⟨k, -, hfirst, hcreated⟩ := h.made
  obtain ⟨k', -, hfirst', hcreated'⟩ := h'.made
  obtain rfl : k = k' := hnew k k' id (hfirst ▸ List.mem_cons_self ..)
    (hfirst' ▸ List.mem_cons_self ..)
  rw [hcreated, hcreated']

/-- A change that leaves the id and the time renews the rest. -/
theorem Stamped.renew (h : Stamped fresh n id fs)
    (hsame : ∀ key ∈ Objects.kept, gs.get? key = fs.get? key) (hlegible : Legible gs)
    (etag : String) (now : Timestamp) : Stamped fresh n id (Objects.renew gs etag now) where
  ownId := by
    rw [Objects.get?_renew_of_kept (by decide), hsame _ (by decide)]
    exact h.ownId
  made := by
    rw [Objects.get?_renew_of_kept (by decide), hsame _ (by decide)]
    exact h.made
  etag := ⟨etag, by rw [Objects.get?_renew, if_neg (by decide), if_pos rfl]⟩
  updatedAt := ⟨now.text, by rw [Objects.get?_renew, if_pos rfl]⟩
  legible := (hlegible.insert Reserved.etag rfl rfl).insert Reserved.updatedAt rfl rfl

theorem stamped_made (hlegible : Legible fs) :
    Stamped fresh (n + 1) (fresh n).first
      (Objects.assembled fs (fresh n).first (fresh n).now.text (fresh n).second (fresh n).now) where
  ownId := by
    rw [Objects.get?_assembled]
    rfl
  made := by
    refine ⟨n, Nat.lt_succ_self n, rfl, ?_⟩
    rw [Objects.get?_assembled]
    rfl
  etag := ⟨(fresh n).second, by rw [Objects.get?_assembled]; rfl⟩
  updatedAt := ⟨(fresh n).now.text, by rw [Objects.get?_assembled]; rfl⟩
  legible := (((hlegible.insert Reserved.id rfl rfl).insert Reserved.createdAt rfl rfl).insert
    Reserved.etag rfl rfl).insert Reserved.updatedAt rfl rfl

theorem Stamped.of_changed (h : Stamped fresh n id fs) {given : Json.Fields}
    (hgiven : ∀ m ∈ given, m.1 ∉ Objects.kept) (hlegible : Legible given)
    (hchanged : Objects.changed fs given = .ok gs) :
    (∀ key ∈ Objects.kept, gs.get? key = fs.get? key) ∧ Legible gs := by
  obtain ⟨-, rfl⟩ | ⟨data, hdata, rfl⟩ := Objects.changed_cases hchanged
  · refine ⟨fun key hkey => Keyed.get?_merge_of_not_key ?_ fs, h.legible.merge hlegible⟩
    rintro m hm rfl
    exact hgiven m hm hkey
  · obtain ⟨t, -, hcreated, hreplaced⟩ := Objects.replaced_of_identified h.identified data
    rw [hreplaced]
    refine ⟨fun key hkey => ?_, ((hlegible.of_member hdata).insert _ rfl rfl).insert _ rfl rfl⟩
    rcases List.mem_cons.1 hkey with rfl | hkey
    · rw [Keyed.get?_insert_of_ne _ _ (by decide), Keyed.get?_insert_self, h.ownId]
    · rw [List.mem_singleton.1 hkey, Keyed.get?_insert_self, hcreated]

end

/-! ### What a call does to objects -/

/-- The objects after a call: as they were, or one was made, changed, marked or taken out. -/
inductive Evolves (s : Store) (f : Fresh) (c : Call) : Store → Prop where
  | same {s' : Store} (h : s'.objects = s.objects) : Evolves s f c s'
  | made (bucket : String) {given : Json.Fields} (hlegible : Legible given) :
    Evolves s f c (s.putObject bucket f.first
      (Objects.assembled given f.first f.now.text f.second f.now))
  | changed {bucket id : String} {given fs gs : Json.Fields}
      (ha : c.action? = some (.updateObject bucket id))
      (hgiven : Json.ofBytes? c.body = some (.obj given)) (hfs : s.object? bucket id = some fs)
      (hchanged : Objects.changed fs given = .ok gs) :
    Evolves s f c (s.putObject bucket id (Objects.renew gs f.first f.now))
  | marked {bucket id : String} {fs : Json.Fields} (hfs : s.object? bucket id = some fs) :
    Evolves s f c (s.putObject bucket id
      (Objects.renew (fs.insert Reserved.deleted (.bool true)) f.first f.now))
  | removed (bucket id : String) : Evolves s f c (s.removeObject bucket id)

section
variable {s s' : Store} {f : Fresh} {c : Call} {reply : Reply}

theorem Objects.evolves_of_create {bucket : String}
    (h : create s f c bucket = .ok (reply, s')) : Evolves s f c s' := by
  obtain ⟨given, hgiven, h⟩ := exists_of_bind_eq_ok h
  obtain rfl := store_of_ok h
  exact .made bucket (legible_of_ofBytes? (Call.ofBytes?_of_object hgiven))

theorem Objects.evolves_of_delete {bucket id : String}
    (h : delete s f c bucket id = .ok (reply, s')) : Evolves s f c s' := by
  obtain ⟨fs, hfs, h⟩ := exists_of_bind_eq_ok h
  obtain ⟨u, -, h⟩ := exists_of_bind_eq_ok h
  split at h
  · obtain rfl := store_of_ok h
    exact .marked (object?_of_lookUp hfs)
  · obtain rfl := store_of_ok h
    exact .removed bucket id

theorem Action.evolves_run {a : Action} (ha : c.action? = some a)
    (h : a.run s f c = .ok (reply, s')) : Evolves s f c s' := by
  cases a with
  | createObject b => exact Objects.evolves_of_create h
  | updateObject b i =>
    obtain ⟨given, fs, gs, hgiven, hfs, hchanged, rfl⟩ := Objects.putObject_of_update h
    exact .changed ha hgiven hfs hchanged
  | deleteObject b i => exact Objects.evolves_of_delete h
  | createFile b n =>
    obtain ⟨fs, hedit, -⟩ := Files.made_of_create h
    exact .same (hedit.others .object (by decide))
  | updateFile b n =>
    obtain ⟨fs, new, -, -, -, hedit⟩ := Files.written_of_update h
    exact .same (hedit.others .object (by decide))
  | deleteFile b n =>
    obtain ⟨fs, new, -, -, -, hedit⟩ := Files.written_of_delete h
    exact .same (hedit.others .object (by decide))
  | logIn =>
    obtain rfl := store_of_logIn h
    exact .same rfl
  | logOut =>
    obtain ⟨token, -, rfl⟩ := store_of_logOut h
    exact .same rfl
  | _ =>
    obtain ⟨rfl, -⟩ | ⟨p, x, hp, -⟩ := Action.does_run h
    · exact .same rfl
    · cases hp

theorem evolves_answer (s : Store) (f : Fresh) (c : Call) : Evolves s f c (answer s f c).2 := by
  obtain ⟨hsame, -⟩ | ⟨a, reply, ha, hrun, -⟩ := answer_runs s f c
  · exact .same (congrArg Store.objects hsame)
  · exact Action.evolves_run ha hrun

end

/-! ### Objects that are told apart -/

/-- What the objects of a store have in common after `n` calls: each is stamped, and none has the id
of another. -/
structure Orderly (fresh : Nat → Fresh) (n : Nat) (s : Store) : Prop where
  stamped : ∀ bucket id fs, s.object? bucket id = some fs → Stamped fresh n id fs
  ascending : ∀ bucket, Keyed.Ascending (s.objectsIn bucket)
  apart : ∀ bucket bucket' id fs gs, s.object? bucket id = some fs →
    s.object? bucket' id = some gs → bucket = bucket'

theorem Store.object?_of_same {s s' : Store} (h : s'.objects = s.objects) (bucket id : String) :
    s'.object? bucket id = s.object? bucket id := by
  rw [object?, objectsIn, h, ← objectsIn, ← object?]

section
variable {fresh : Nat → Fresh} {n : Nat} {s s' : Store} {c : Call} {bucket id : String}
  {fs : Json.Fields}

theorem Orderly.of_same (h : Orderly fresh n s) (hsame : s'.objects = s.objects) :
    Orderly fresh (n + 1) s' := by
  have hobject := Store.object?_of_same hsame
  refine ⟨fun bucket id fs hfs => ?_, fun bucket => ?_, fun bucket bucket' id fs gs hfs hgs => ?_⟩
  · exact (h.stamped bucket id fs ((hobject bucket id).symm.trans hfs)).succ
  · rw [Store.objectsIn, hsame]
    exact h.ascending bucket
  · exact h.apart bucket bucket' id fs gs ((hobject bucket id).symm.trans hfs)
      ((hobject bucket' id).symm.trans hgs)

/-- An object may be put where no other bucket has its id. -/
theorem Orderly.putObject (h : Orderly fresh n s) (hput : Stamped fresh (n + 1) id fs)
    (hplace : ∀ b gs, s.object? b id = some gs → b = bucket) :
    Orderly fresh (n + 1) (s.putObject bucket id fs) where
  stamped := by
    intro b i gs hgs
    rw [Store.object?_putObject] at hgs
    split at hgs
    · rename_i hp
      rw [← hp.2, ← Option.some.inj hgs]
      exact hput
    · exact (h.stamped b i gs hgs).succ
  ascending := by
    intro b
    rw [Store.objectsIn_putObject]
    split
    · exact (h.ascending bucket).insert id fs
    · exact h.ascending b
  apart := by
    intro b b' i gs gs' hgs hgs'
    rw [Store.object?_putObject] at hgs hgs'
    split at hgs <;> split at hgs'
    · rename_i hp hp'
      exact hp.1.symm.trans hp'.1
    · rename_i hp _
      rw [← hp.2] at hgs'
      exact hp.1.symm.trans (hplace b' gs' hgs').symm
    · rename_i _ hp'
      rw [← hp'.2] at hgs
      exact (hplace b gs hgs).trans hp'.1
    · exact h.apart b b' i gs gs' hgs hgs'

theorem Orderly.removeObject (h : Orderly fresh n s) (bucket id : String) :
    Orderly fresh (n + 1) (s.removeObject bucket id) := by
  have hold {b i : String} {gs : Json.Fields}
      (hgs : (s.removeObject bucket id).object? b i = some gs) : s.object? b i = some gs := by
    rw [Store.object?_removeObject] at hgs
    split at hgs
    · cases hgs
    · exact hgs
  refine ⟨fun b i gs hgs => (h.stamped b i gs (hold hgs)).succ, fun b => ?_,
    fun b b' i gs gs' hgs hgs' => h.apart b b' i gs gs' (hold hgs) (hold hgs')⟩
  rw [Store.objectsIn_removeObject]
  split
  · exact (h.ascending bucket).erase id
  · exact h.ascending b

/-- A call that gives no object another id or time keeps the objects apart. -/
theorem Orderly.evolve (hnew : NeverRepeats fresh) (h : Orderly fresh n s)
    (hkeeps : c.KeepsIdentity) (hevolves : Evolves s (fresh n) c s') :
    Orderly fresh (n + 1) s' := by
  cases hevolves with
  | same hsame => exact h.of_same hsame
  | made bucket hlegible =>
    refine h.putObject (stamped_made hlegible) fun b gs hgs => ?_
    -- an id that the call found new is the id of no object yet
    have hnamed := (h.stamped b _ gs hgs).identified.named
    exact absurd (List.mem_cons_self ..) (hnamed.not_new hnew)
  | @changed bucket id given fs gs ha hgiven hfs hchanged =>
    have hstamped := h.stamped bucket id fs hfs
    obtain ⟨hsame, hlegible⟩ := hstamped.of_changed (hkeeps bucket id ha given hgiven)
      (legible_of_ofBytes? hgiven) hchanged
    exact h.putObject (hstamped.succ.renew hsame hlegible _ _)
      fun b gs hgs => h.apart b bucket id gs fs hgs hfs
  | @marked bucket id fs hfs =>
    have hstamped := h.stamped bucket id fs hfs
    have hsame : ∀ key ∈ Objects.kept,
        (fs.insert Reserved.deleted (.bool true)).get? key = fs.get? key := by
      intro key hkey
      refine Keyed.get?_insert_of_ne _ _ ?_
      rintro rfl
      exact absurd hkey (by decide)
    have hlegible := hstamped.legible.insert Reserved.deleted (v := .bool true) rfl rfl
    exact h.putObject (hstamped.succ.renew hsame hlegible _ _)
      fun b gs hgs => h.apart b bucket id gs fs hgs hfs
  | removed bucket id => exact h.removeObject bucket id

theorem orderly_empty : Orderly fresh 0 {} where
  stamped := fun _ _ _ h => by cases h
  ascending := fun _ => List.Pairwise.nil
  apart := fun _ _ _ _ _ h => by cases h

end

/-! ### Runs -/

namespace Step

/-- An operation of any client on objects. -/
def onObjects : Step → Bool
  | operation _ _ _ o => o.onObjects
  | call _ => false

def runAll (fresh : Nat → Fresh) (steps : List Step) (b : Backend) : Backend :=
  steps.foldl (fun b s => s.run fresh b) b

variable {fresh : Nat → Fresh} {b : Backend} {steps : List Step}

theorem orderly_run (hnew : NeverRepeats fresh) (h : Orderly fresh b.calls b.store) {s : Step}
    (hs : s.onObjects = true) : Orderly fresh (s.run fresh b).calls (s.run fresh b).store := by
  cases s with
  | call c => cases hs
  | operation service disk now o =>
    obtain hsame | ⟨c, hkeeps, hanswer⟩ := call_of_onObjects service disk now hs
    · rw [hsame]
      exact h
    · rw [hanswer]
      exact h.evolve hnew hkeeps (evolves_answer b.store (fresh b.calls) c)

theorem orderly_runAll (hnew : NeverRepeats fresh) (hsteps : ∀ s ∈ steps, s.onObjects = true)
    (h : Orderly fresh b.calls b.store) :
    Orderly fresh (runAll fresh steps b).calls (runAll fresh steps b).store := by
  induction steps generalizing b with
  | nil => exact h
  | cons s steps ih =>
    exact ih (fun t ht => hsteps t (List.mem_cons_of_mem _ ht))
      (orderly_run hnew h (hsteps s (List.mem_cons_self ..)))

theorem sound_runAll (hnew : NeverRepeats fresh) (h : Sound fresh b) (steps : List Step) :
    Sound fresh (runAll fresh steps b) := by
  induction steps generalizing b with
  | nil => exact h
  | cons s steps ih => exact ih (s.sound_run hnew h)

end Step

/-- A step makes an object, and gives it this time. -/
def MakesAt (fresh : Nat → Fresh) (bucket id : String) (created : Option Json)
    (m : Backend × Step) : Prop :=
  m.1.store.object? bucket id = none ∧ ∃ fs,
    (m.2.run fresh m.1).store.object? bucket id = some fs ∧
      fs.get? Reserved.createdAt = created

section
variable {fresh : Nat → Fresh} {bucket id : String} {fs : Json.Fields}

theorem made_in_runAll (hnew : NeverRepeats fresh) {steps : List Step}
    (hsteps : ∀ s ∈ steps, s.onObjects = true) {b : Backend} (h : Orderly fresh b.calls b.store)
    (hfs : (Step.runAll fresh steps b).store.object? bucket id = some fs) :
    (∃ gs, b.store.object? bucket id = some gs ∧
        gs.get? Reserved.createdAt = fs.get? Reserved.createdAt) ∨
      ∃ m ∈ moments fresh b steps, MakesAt fresh bucket id (fs.get? Reserved.createdAt) m := by
  induction steps generalizing b with
  | nil => exact Or.inl ⟨fs, hfs, rfl⟩
  | cons s steps ih =>
    have hafter := Step.orderly_run hnew h (hsteps s (List.mem_cons_self ..))
    -- what the rest of the run finds there, the first step has found there too or has made
    obtain ⟨gs, hgs, hsame⟩ | ⟨m, hm, hmakes⟩ :=
      ih (fun t ht => hsteps t (List.mem_cons_of_mem _ ht)) hafter hfs
    · cases hbefore : b.store.object? bucket id with
      | none => exact Or.inr ⟨(b, s), List.mem_cons_self .., hbefore, gs, hgs, hsame⟩
      | some old =>
        have hstays := (h.stamped bucket id old hbefore).createdAt_eq hnew
          (hafter.stamped bucket id gs hgs)
        exact Or.inl ⟨old, rfl, hstays.trans hsame⟩
    · exact Or.inr ⟨m, List.mem_cons_of_mem _ hm, hmakes⟩

/-- What an object has after a run: its own id, the time of when it was made, an etag and the time
of its last change. -/
structure Identity (fresh : Nat → Fresh) (steps : List Step) (bucket id : String)
    (fs : Json.Fields) : Prop where
  ownId : fs.get? Reserved.id = some (.str id)
  createdAt : ∃ t, fs.get? Reserved.createdAt = some (.str t) ∧
    ∃ m ∈ moments fresh {} steps, MakesAt fresh bucket id (some (.str t)) m
  etag : ∃ e, fs.get? Reserved.etag = some (.str e)
  updatedAt : ∃ t, fs.get? Reserved.updatedAt = some (.str t)

theorem identity_of_runAll (hnew : NeverRepeats fresh) {steps : List Step}
    (hsteps : ∀ s ∈ steps, s.onObjects = true)
    (hfs : (Step.runAll fresh steps {}).store.object? bucket id = some fs) :
    Identity fresh steps bucket id fs := by
  have hstamped := (Step.orderly_runAll hnew hsteps orderly_empty).stamped bucket id fs hfs
  obtain ⟨k, -, -, hcreated⟩ := hstamped.made
  refine ⟨hstamped.ownId, ⟨_, hcreated, ?_⟩, hstamped.etag, hstamped.updatedAt⟩
  obtain ⟨gs, hgs, -⟩ | hmade := made_in_runAll hnew hsteps orderly_empty hfs
  · cases hgs
  · rwa [hcreated] at hmade

end

/-! ### Objects that clients get -/

section
variable {fresh : Nat → Fresh} {n : Nat} {s s' : Store} {f : Fresh} {c : Call} {bucket id : String}
  {fs : Json.Fields} {reply : Reply}

theorem Stamped.id_eq (h : Stamped fresh n id fs) (bucket : String) :
    (StoredObject.ofFields bucket (Json.rereadMembers fs)).id = id := by
  have hget := Json.get?_rereadMembers fs Reserved.id
  rw [h.ownId] at hget
  rw [StoredObject.ofFields, Json.Fields.text, hget]
  rfl

theorem Objects.object?_of_read (h : read s c bucket id = .ok (reply, s')) :
    ∃ fs, s.object? bucket id = some fs ∧ reply = .json 200 (.obj fs) := by
  obtain ⟨fs, hfs, h⟩ := exists_of_bind_eq_ok h
  split at h
  · exact ⟨fs, object?_of_lookUp hfs, (reply_of_ok h).symm⟩
  · cases h

/-- The reply to a query. -/
def Objects.findReply (counted : Bool) (total : Nat) (found : List Json.Fields) : Reply :=
  .json 200 (.obj ((if counted then [("count", .int total)] else [])
    ++ [("results", .arr (found.map .obj))]))

theorem Objects.sublist_of_find (h : find s c bucket = .ok (reply, s')) :
    ∃ total found, found.Sublist (s.objectsIn bucket).values ∧
      reply = findReply (c.flag "count") total found := by
  obtain ⟨conditions, -, h⟩ := exists_of_bind_eq_ok h
  have hmatching : (matching (s.objectsIn bucket) (c.flag deleteMark) conditions).Sublist
      (s.objectsIn bucket).values := List.filter_sublist
  exact ⟨_, _, (upTo_isPrefix (limit? c) _).sublist.trans hmatching, (reply_of_ok h).symm⟩

theorem Orderly.pairwise_id (h : Orderly fresh n s) (bucket bucket' : String) :
    ((s.objectsIn bucket).values.map fun fs =>
      (StoredObject.ofFields bucket' (Json.rereadMembers fs)).id).Pairwise (· ≠ ·) := by
  rw [Keyed.values, List.map_map, List.pairwise_map]
  refine (h.ascending bucket).keys_ne.imp_of_mem fun {p q} hp hq hne => ?_
  have hid {p : String × Json.Fields} (hp : p ∈ s.objectsIn bucket) :
      (StoredObject.ofFields bucket' (Json.rereadMembers p.2)).id = p.1 :=
    (h.stamped bucket p.1 p.2 ((h.ascending bucket).get?_of_mem hp)).id_eq bucket'
  simp only [Function.comp_apply]
  rw [hid hp, hid hq]
  exact hne

/-- What a client makes of objects that are found, whatever their number. -/
theorem objectsOf_received {found : List Json.Fields}
    (hfound : ∀ fs ∈ found, (Json.obj fs).isOrdered = true) (counted : Bool) (total : Nat)
    (b : Bucket) :
    let told := (Objects.findReply counted total found).received.jsonObject
    ObjectBucket.objectsOf b (told.get? "results") = [] ∨
      ObjectBucket.objectsOf b (told.get? "results")
        = found.map fun fs => .ofFields b.name (Json.rereadMembers fs) := by
  have hread : ObjectBucket.objectsOf b (some (Json.arr (found.map .obj)).reread)
      = found.map fun fs => .ofFields b.name (Json.rereadMembers fs) :=
    Json.filterMap_reread_objs (StoredObject.ofFields b.name) found
  rw [← hread]
  cases counted with
  | false =>
    have htold : (Objects.findReply false total found).received.jsonObject
        = if (Json.obj [("results", .arr (found.map .obj))]).depth ≤ 127
          then [("results", (Json.arr (found.map .obj)).reread)] else [] :=
      Reply.jsonObject_received_of_list hfound
    intro told
    simp only [told, htold]
    split
    · exact Or.inr rfl
    · exact Or.inl rfl
  | true =>
    have hbody : (Objects.findReply true total found).received.body = (Json.obj
        [("count", .int total), ("results", .arr (found.map .obj))]).bytes :=
      Reply.body_received (Reply.sendable_json (by decide) (by decide) _)
    intro told
    simp only [told, Response.jsonObject, hbody]
    -- a count that is too large for a reader spoils the reply as a whole
    obtain hnone | ⟨w, hsome⟩ :=
      Json.ofBytes?_bytes_of_counted (by decide : "count" < "results") (total : Int)
        (Json.isOrdered_objs hfound)
    · rw [hnone]
      exact Or.inl rfl
    · rw [hsome]
      exact Or.inr rfl

end

section
variable {fresh : Nat → Fresh} {c : Client Unit Backend} {now : Int} {b : Bucket} {n : Nat}
  (h : Orderly fresh n c.site.backend.store) (hserver : c.service.credentials.AtServer)
include h hserver

theorem id_of_get (hb : Unmarked b.name.toList) {id : String} (hid : Unreserved id) {mark : Bool}
    {o : StoredObject}
    (hget : (ObjectBucket.get (Backend.engine fresh) now b id mark c).1 = .success o) :
    o.id = id := by
  unfold ObjectBucket.get at hget
  split at hget
  · cases hget
  rename_i hidne
  split at hget
  · cases hget
  obtain ⟨response, hr, rfl⟩ := Outcome.success_of_map hget
  obtain ⟨call, raw, hcall, hraw, hroute⟩ := route_of_plain_success hr
  let d : Draft := { c.service.draft now with
    method := .get
    path := ObjectBucket.path ++ String.join ([b.name, id].map ("/" ++ ·))
    params := (c.service.draft now).params ++ if mark then [(deleteMark, "1")] else [] }
  rw [Draft.applyAll_of_complete (Client.missing?_of_request_success hr),
    Draft.foldl_objectTarget, Draft.foldl_mark] at hcall
  have hcall : Backend.callOf? ⟨d.build, 0, none⟩ = some call := hcall
  have hmethod : call.method = "GET" := (callOf?_spec hcall).1
  have hlist : d.path.toList = ["objects".toList, b.name.toList, id.toList].flatMap ('/' :: ·) :=
    Draft.toList_objectPath [b.name, id]
  have hpath : Unmarked d.path.toList := by
    have hwhole := (Unmarked.append (by decide : Unmarked "/objects/".toList) hb).append
      (Unmarked.append (by decide : Unmarked "/".toList) hid.unmarked)
    rw [hlist]
    simpa using hwhole
  -- nothing ends the path before the id, so the route is that of the object
  have harrives := toList_path_of_sent (d := d) hserver hpath rfl hcall
  rw [hlist] at harrives
  obtain rfl := Route.eq_of_ofPath?_object (hid.not_mem (by decide)) hidne harrives hraw
  obtain ⟨route, reply, s', hdecoded, hperform, rfl⟩ := hroute (by rw [hmethod]; rfl)
  obtain ⟨bucket, -, hdecoded⟩ := exists_of_bind_eq_ok hdecoded
  obtain ⟨i, hi, hdecoded⟩ := exists_of_bind_eq_ok hdecoded
  obtain rfl : id = i := Except.ok.inj ((Route.decodePart_of_unreserved "id" hid).symm.trans hi)
  obtain rfl := Except.ok.inj hdecoded
  rw [Route.perform, hmethod] at hperform
  obtain ⟨fs, hfs, rfl⟩ := Objects.object?_of_read hperform
  have hstamped := h.stamped bucket id fs hfs
  rw [ObjectBucket.ofResponse, Reply.jsonObject_received_of_isOrdered (by decide) (by decide)
    hstamped.legible.ordered, if_pos hstamped.legible.depth]
  exact hstamped.id_eq b.name

theorem ids_of_query (hb : '/' ∉ b.name.toList) {params : Pairs} {withCount : Bool}
    {page : ObjectBucket.Page}
    (hquery : (ObjectBucket.query (Backend.engine fresh) now b params withCount c).1
      = .success page) : (page.objects.map (·.id)).Nodup := by
  unfold ObjectBucket.query at hquery
  split at hquery
  · cases hquery
  obtain ⟨response, hr, rfl⟩ := Outcome.success_of_map hquery
  obtain ⟨call, raw, hcall, hraw, hroute⟩ := route_of_plain_success hr
  let d : Draft := { c.service.draft now with
    method := .get
    path := ObjectBucket.path ++ String.join ([b.name].map ("/" ++ ·))
    params := params ++ if withCount then [("count", "1")] else [] }
  rw [Draft.applyAll_of_complete (Client.missing?_of_request_success hr),
    Draft.foldl_objectTarget] at hcall
  have hcall : Backend.callOf? ⟨d.build, 0, none⟩ = some call := hcall
  have hmethod : call.method = "GET" := (callOf?_spec hcall).1
  have hlist : d.path.toList = "/objects/".toList ++ b.name.toList := by
    have hparts : d.path.toList = ["objects".toList, b.name.toList].flatMap ('/' :: ·) :=
      Draft.toList_objectPath [b.name]
    rw [hparts]
    simp
  -- a mark may cut the name short, but what is left of it is still one part of the path
  obtain ⟨kept, hkept, harrives, -⟩ :=
    exists_path_of_sent (d := d) hserver (by decide : Unmarked "/objects/".toList) hlist rfl hcall
  have hparts : call.path.toList
      = "/1/tenant".toList ++ ["objects".toList, kept].flatMap ('/' :: ·) := by
    rw [harrives]
    simp
  obtain rfl := Route.eq_of_ofPath?_bucketObjects (fun hm => hb (hkept.subset hm)) hparts hraw
  obtain ⟨route, reply, s', hdecoded, hperform, rfl⟩ := hroute (by rw [hmethod]; rfl)
  obtain ⟨bucket, -, rfl⟩ := exists_of_map_eq_ok hdecoded
  rw [Route.perform, hmethod] at hperform
  obtain ⟨total, found, hfound, rfl⟩ := Objects.sublist_of_find hperform
  have hordered : ∀ fs ∈ found, (Json.obj fs).isOrdered = true := by
    intro fs hfs
    obtain ⟨p, hp, rfl⟩ := List.mem_map.1 (hfound.subset hfs)
    exact (h.stamped bucket p.1 p.2 ((h.ascending bucket).get?_of_mem hp)).legible.ordered
  dsimp only
  obtain hnone | hsome := objectsOf_received hordered (call.flag "count") total b
  · rw [hnone]
    exact List.Pairwise.nil
  · rw [hsome, List.map_map]
    exact (h.pairwise_id bucket b.name).sublist (hfound.map _)

end

/-- After any operations on objects every object has its own id, the time that it was given when it
was made, an etag and the time of its last change, and shares neither id nor etag with another. An
object that a client gets by an id has that id, unless the bucket has a name that ends the path; and
the objects that a query finds differ in their ids, unless the bucket has a name of several parts. -/
theorem objects_keep_identity {fresh : Nat → Fresh} (hnew : NeverRepeats fresh) {steps : List Step}
    (hsteps : ∀ s ∈ steps, s.onObjects = true) :
    let b := Step.runAll fresh steps {}
    (∀ bucket id fs, b.store.object? bucket id = some fs → Identity fresh steps bucket id fs) ∧
    (∀ bucket id bucket' id' fs fs', b.store.object? bucket id = some fs →
      b.store.object? bucket' id' = some fs' →
      id = id' ∨ fs.get? Reserved.etag = fs'.get? Reserved.etag → bucket = bucket' ∧ id = id') ∧
    ∀ (c : Client Unit Backend) (now : Int) (bucket : Bucket), c.site.backend = b →
      c.service.credentials.AtServer →
      (Unmarked bucket.name.toList → ∀ id mark o, Unreserved id →
        (ObjectBucket.get (Backend.engine fresh) now bucket id mark c).1 = .success o →
        o.id = id) ∧
      ('/' ∉ bucket.name.toList → ∀ params withCount page,
        (ObjectBucket.query (Backend.engine fresh) now bucket params withCount c).1
          = .success page →
        (page.objects.map (·.id)).Nodup) := by
  intro b
  have horderly : Orderly fresh b.calls b.store := Step.orderly_runAll hnew hsteps orderly_empty
  have hsound : Sound fresh b := Step.sound_runAll hnew sound_empty steps
  refine ⟨fun bucket id fs hfs => identity_of_runAll hnew hsteps hfs, ?_, ?_⟩
  · rintro bucket id bucket' id' fs fs' hfs hfs' (rfl | hetag)
    · exact ⟨horderly.apart bucket bucket' id fs fs' hfs hfs', rfl⟩
    · obtain ⟨e, he⟩ := (horderly.stamped bucket id fs hfs).etag
      have hat {bucket id : String} {fs : Json.Fields} (hfs : b.store.object? bucket id = some fs)
          (he : fs.get? Reserved.etag = some (.str e)) :
          b.store.etag? .object Reserved.etag bucket id = some e := by
        rw [Store.etag?, Store.entry?, hfs, Option.bind_some, etagOf, he]
        rfl
      exact hsound.apart (List.mem_singleton.2 rfl) (hat hfs he) (hat hfs' (hetag ▸ he))
  · intro c now bucket hbackend hserver
    rw [← hbackend] at horderly
    exact ⟨fun hb id mark o hid hget => id_of_get horderly hserver hb hid hget,
      fun hb params withCount page hquery => ids_of_query horderly hserver hb hquery⟩

/-- Two objects are made, one is changed by a client that gives it another id, and the other is
marked as deleted. -/
theorem objects_keep_identity_of_marked :
    let service : Service Unit :=
      ⟨⟨"http://mock", "tenant", "app-id", "app-key", ""⟩, {}, {}, .new 1 1, 60⟩
    let bucket : Bucket := ⟨"t", 5⟩
    let make := Step.operation service {} 0 (.saveObject bucket { data := [("a", .int 1)] } false)
    let update := Step.operation service {} 0
      (.updateObject bucket "i0" "" [("_id", .str "x"), ("b", .int 2)] none)
    let mark := Step.operation service {} 0 (.deleteObject bucket "i1" "" true)
    let steps := [make, make, update, mark]
    let c : Client Unit Backend := ⟨service, ⟨{}, Step.runAll numbered steps {}⟩⟩
    (∃ fs, c.site.backend.store.object? "t" "i0" = some fs ∧ Identity numbered steps "t" "i0" fs) ∧
      (∃ o, (ObjectBucket.get (Backend.engine numbered) 0 bucket "i1" true c).1 = .success o ∧
        o.deleted = true ∧ o.id = "i1") ∧
      ∃ page, (ObjectBucket.query (Backend.engine numbered) 0 bucket [("deleteMark", "1")] true
        c).1 = .success page ∧ page.objects.length = 2 ∧ (page.objects.map (·.id)).Nodup := by
  intro service bucket make update mark steps c
  have hsteps : ∀ s ∈ steps, s.onObjects = true := by
    simp [steps, make, update, mark, Step.onObjects, Operation.onObjects]
  have hserver : service.credentials.AtServer := by decide +kernel
  have hreached : c.site.backend = Step.runAll numbered steps {} := by simp only [c]
  obtain ⟨hidentity, -, hread⟩ := objects_keep_identity neverRepeats_numbered hsteps
  obtain ⟨hget, hquery⟩ := hread c 0 bucket hreached hserver
  rw [← hreached] at hidentity
  have hobject : (c.site.backend.store.object? "t" "i0").isSome = true := by decide +kernel
  obtain ⟨fs, hfs⟩ := Option.isSome_iff_exists.1 hobject
  have hmarked : ((ObjectBucket.get (Backend.engine numbered) 0 bucket "i1" true c).1.value?.map
      (·.deleted)) = some true := by decide +kernel
  obtain ⟨o, ho, hdeleted⟩ := Option.map_eq_some_iff.1 hmarked
  have hfound : ((ObjectBucket.query (Backend.engine numbered) 0 bucket [("deleteMark", "1")] true
      c).1.value?.map (·.objects.length)) = some 2 := by decide +kernel
  obtain ⟨page, hpage, hlength⟩ := Option.map_eq_some_iff.1 hfound
  have ho := Outcome.eq_of_value? ho
  have hpage := Outcome.eq_of_value? hpage
  exact ⟨⟨fs, hfs, hidentity "t" "i0" fs hfs⟩,
    ⟨o, ho, hdeleted, hget (by decide) "i1" true o (by decide) ho⟩,
    page, hpage, hlength, hquery (by decide) _ true page hpage⟩

/-- What the conditions are for: after a question mark or a number sign in the name of a bucket the
id is no longer part of the path, a name of two parts leads to an object that may hold a list of its
own, and an endpoint or a tenant with further parts leads to another interface. -/
theorem names_lead_elsewhere :
    let service : Service Unit :=
      ⟨⟨"http://mock", "tenant", "app-id", "app-key", ""⟩, {}, {}, .new 1 1, 60⟩
    let list : Json := .arr [.obj [("_id", .str "x")], .obj [("_id", .str "x")]]
    let steps := [Step.operation service {} 0
      (.saveObject ⟨"t", 5⟩ { data := [("results", list)] } false)]
    let client (endpoint tenant : String) : Client Unit Backend :=
      ⟨⟨⟨endpoint, tenant, "app-id", "app-key", ""⟩, {}, {}, .new 1 1, 60⟩,
        ⟨{}, Step.runAll numbered steps {}⟩⟩
    let get (bucket : String) (c : Client Unit Backend) : Option String :=
      (ObjectBucket.get (Backend.engine numbered) 0 ⟨bucket, 5⟩ "abc" false c).1.value?.map (·.id)
    NeverRepeats numbered ∧ (∀ s ∈ steps, s.onObjects = true) ∧ Unreserved "abc" ∧
      get "t/i0?" (client "http://mock" "tenant") = some "i0" ∧
      get "t/i0#" (client "http://mock" "tenant") = some "i0" ∧
      get "t" (client "http://mock/1/tenant/api/x" "tenant") = some "" ∧
      get "t" (client "http://mock" "tenant/api/x") = some "" ∧
      (ObjectBucket.query (Backend.engine numbered) 0 ⟨"t/i0", 5⟩ [] false
        (client "http://mock" "tenant")).1.value?.map (fun page => page.objects.map (·.id))
          = some ["x", "x"] := by
  intro service list steps
  have hsteps : ∀ s ∈ steps, s.onObjects = true := by
    simp [steps, Step.onObjects, Operation.onObjects]
  exact ⟨neverRepeats_numbered, hsteps, by decide, by decide +kernel, by decide +kernel,
    by decide +kernel, by decide +kernel, by decide +kernel⟩

end AppBackend.Server
