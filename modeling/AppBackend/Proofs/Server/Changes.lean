import AppBackend.Proofs.Server.Exchange

/-!
# What a call changes

Objects and files alike are entries with etags: an object has one, a file has two. Said once for all
calls: a call leaves the entries as they are, or it makes one entry, or it writes one. An entry is
written only if its etags are those that the call asks for, and then one of them is new or the entry
is gone. Main statements: `changes_answer`, and `written_of_success` and `written_of_changed` for
calls that put or delete.
-/

namespace AppBackend.Server

/-! ### Entries and their etags -/

inductive Kind where
  | object
  | file
deriving DecidableEq

/-- The members that hold etags, which are also the parameters that ask for them. -/
def Kind.etagKeys : Kind → List String
  | .object => [Reserved.etag]
  | .file => [Files.metaEtag, Files.fileEtag]

def etagOf (fs : Json.Fields) (key : String) : Option String := (fs.get? key).bind Json.str?

def Fresh.names (f : Fresh) : List String := [f.first, f.second]

namespace Store

def entry? (s : Store) : Kind → String → String → Option Json.Fields
  | .object, bucket, id => s.object? bucket id
  | .file, bucket, name => (s.file? bucket name).map (·.metadata)

/-- All entries of a kind are the same in two stores, contents included. -/
def SameIn (s s' : Store) : Kind → Prop
  | .object => s'.objects = s.objects
  | .file => s'.files = s.files

theorem SameIn.entry? {s s' : Store} {kind : Kind} (h : s.SameIn s' kind) (bucket key : String) :
    s'.entry? kind bucket key = s.entry? kind bucket key := by
  cases kind with
  | object => simp only [Store.entry?, object?, objectsIn, show s'.objects = s.objects from h]
  | file => simp only [Store.entry?, file?, filesIn, show s'.files = s.files from h]

/-- One entry is put or taken out, and no other place changes. -/
structure EditedAt (s : Store) (kind : Kind) (bucket key : String) (new : Option Json.Fields)
    (s' : Store) : Prop where
  entries : ∀ b k, s'.entry? kind b k = if bucket = b ∧ key = k then new else s.entry? kind b k
  others : ∀ other, other ≠ kind → s.SameIn s' other

theorem editedAt_putObject (s : Store) (bucket id : String) (fs : Json.Fields) :
    s.EditedAt .object bucket id (some fs) (s.putObject bucket id fs) where
  entries := fun b i => object?_putObject s bucket id b i fs
  others := fun other h => by
    cases other with
    | object => exact absurd rfl h
    | file => rfl

theorem editedAt_removeObject (s : Store) (bucket id : String) :
    s.EditedAt .object bucket id none (s.removeObject bucket id) where
  entries := fun b i => object?_removeObject s bucket id b i
  others := fun other h => by
    cases other with
    | object => exact absurd rfl h
    | file => rfl

theorem editedAt_putFile (s : Store) (bucket name : String) (m : Json.Fields) (content : Bytes) :
    s.EditedAt .file bucket name (some m) (s.putFile bucket name ⟨m, content⟩) where
  entries := fun b n => by
    simp only [Store.entry?, file?_putFile]
    split <;> rfl
  others := fun other h => by
    cases other with
    | object => rfl
    | file => exact absurd rfl h

theorem editedAt_removeFile (s : Store) (bucket name : String) :
    s.EditedAt .file bucket name none (s.removeFile bucket name) where
  entries := fun b n => by
    simp only [Store.entry?, file?_removeFile]
    split <;> rfl
  others := fun other h => by
    cases other with
    | object => rfl
    | file => exact absurd rfl h

end Store

/-! ### Making and writing -/

/-- An entry is there whose etags are all new. -/
def Made (s : Store) (f : Fresh) (kind : Kind) (bucket key : String) (s' : Store) : Prop :=
  ∃ fs, s.EditedAt kind bucket key (some fs) s' ∧
    ∀ e ∈ kind.etagKeys, ∃ x ∈ f.names, etagOf fs e = some x

/-- What becomes of an entry that is written: it goes, or one etag is new and the others stay. -/
inductive Renewed (f : Fresh) (kind : Kind) (fs : Json.Fields) : Option Json.Fields → Prop where
  | gone : Renewed f kind fs none
  | anew {gs : Json.Fields} {e : String} (key : e ∈ kind.etagKeys)
      (new : etagOf gs e = some f.first)
      (others : ∀ e' ∈ kind.etagKeys, e' ≠ e → etagOf gs e' = etagOf fs e') :
      Renewed f kind fs (some gs)

def Written (s : Store) (f : Fresh) (c : Call) (kind : Kind) (bucket key : String) (s' : Store) :
    Prop :=
  ∃ fs new, s.entry? kind bucket key = some fs ∧
    (∀ e ∈ kind.etagKeys, c.checkEtag e fs = .ok ()) ∧ Renewed f kind fs new ∧
    s.EditedAt kind bucket key new s'

theorem etagOf_insert_self (fs : Json.Fields) (key x : String) :
    etagOf (fs.insert key (.str x)) key = some x := by
  rw [etagOf, Keyed.get?_insert_self]
  rfl

theorem etagOf_insert_of_ne (fs : Json.Fields) {key e : String} (v : Json) (h : key ≠ e) :
    etagOf (fs.insert key v) e = etagOf fs e := by
  rw [etagOf, Keyed.get?_insert_of_ne fs v h, etagOf]

theorem etagOf_renew (fs : Json.Fields) (etag : String) (now : Timestamp) :
    etagOf (Objects.renew fs etag now) Reserved.etag = some etag := by
  rw [Objects.renew, etagOf_insert_of_ne _ _ (by decide), etagOf_insert_self]

theorem eq_of_checkEtag {c : Call} {e x : String} {fs : Json.Fields}
    (h : c.checkEtag e fs = .ok ()) (hx : c.param? e = some x) : etagOf fs e = some x := by
  rw [Call.checkEtag, hx] at h
  dsimp only at h
  split at h
  · assumption
  · cases h

/-! ### Objects -/

section
variable {s s' : Store} {f : Fresh} {c : Call} {bucket key : String} {reply : Reply}

theorem store_of_ok {r : Reply} {t : Store} (h : (.ok (r, t) : Answer) = .ok (reply, s')) :
    t = s' := congrArg Prod.snd (Except.ok.inj h)

namespace Objects

theorem object?_of_lookUp {fs : Json.Fields} (h : lookUp s bucket key = .ok fs) :
    s.object? bucket key = some fs := by
  unfold lookUp at h
  split at h
  · rename_i gs hgs
    rw [hgs, Except.ok.inj h]
  · cases h

theorem renewed_renew (fs gs : Json.Fields) :
    Renewed f .object fs (some (renew gs f.first f.now)) := by
  refine .anew (List.mem_singleton.2 rfl) (etagOf_renew gs f.first f.now) ?_
  intro e' he' hne
  exact absurd (List.mem_singleton.1 he') hne

theorem made_of_create (h : create s f c bucket = .ok (reply, s')) :
    Made s f .object bucket f.first s' := by
  obtain ⟨given, -, h⟩ := exists_of_bind_eq_ok h
  obtain rfl := store_of_ok h
  refine ⟨_, Store.editedAt_putObject s bucket f.first _, ?_⟩
  intro e he
  rw [List.mem_singleton.1 he]
  exact ⟨f.second, by simp [Fresh.names], etagOf_renew _ f.second f.now⟩

theorem written_of_update (h : update s f c bucket key = .ok (reply, s')) :
    Written s f c .object bucket key s' := by
  obtain ⟨given, -, h⟩ := exists_of_bind_eq_ok h
  obtain ⟨fs, hfs, h⟩ := exists_of_bind_eq_ok h
  obtain ⟨u, hetag, h⟩ := exists_of_bind_eq_ok h
  obtain ⟨gs, -, h⟩ := exists_of_bind_eq_ok h
  obtain rfl := store_of_ok h
  refine ⟨fs, _, object?_of_lookUp hfs, ?_, renewed_renew fs gs,
    Store.editedAt_putObject s bucket key _⟩
  intro e he
  rw [List.mem_singleton.1 he]
  exact hetag

theorem written_of_delete (h : delete s f c bucket key = .ok (reply, s')) :
    Written s f c .object bucket key s' := by
  obtain ⟨fs, hfs, h⟩ := exists_of_bind_eq_ok h
  obtain ⟨u, hetag, h⟩ := exists_of_bind_eq_ok h
  have hasked : ∀ e ∈ Kind.object.etagKeys, c.checkEtag e fs = .ok () := by
    intro e he
    rw [List.mem_singleton.1 he]
    exact hetag
  split at h
  · obtain rfl := store_of_ok h
    exact ⟨fs, _, object?_of_lookUp hfs, hasked, renewed_renew fs _,
      Store.editedAt_putObject s bucket key _⟩
  · obtain rfl := store_of_ok h
    exact ⟨fs, none, object?_of_lookUp hfs, hasked, .gone,
      Store.editedAt_removeObject s bucket key⟩

end Objects

/-! ### Files -/

namespace Files

theorem entry?_of_lookUp {file : StoredFile} (h : lookUp s bucket key = .ok file) :
    s.entry? .file bucket key = some file.metadata := by
  unfold lookUp at h
  split at h
  · rename_i file' hfile'
    rw [Store.entry?, hfile', ← Except.ok.inj h]
    rfl
  · cases h

theorem asked_of_checkEtags {m : Json.Fields} {u : Unit} (h : checkEtags c m = .ok u) :
    ∀ e ∈ Kind.file.etagKeys, c.checkEtag e m = .ok () := by
  obtain ⟨u', hmeta, hfile⟩ := exists_of_bind_eq_ok h
  intro e he
  rcases List.mem_cons.1 he with rfl | he
  · exact hmeta
  · rw [List.mem_singleton.1 he]
    exact hfile

theorem etagOf_newMetadata (name contentType : String) (length : Nat) (cacheDisabled : Bool)
    (acl : Json) :
    etagOf (newMetadata f name contentType length cacheDisabled acl) metaEtag = some f.first ∧
      etagOf (newMetadata f name contentType length cacheDisabled acl) fileEtag
        = some f.second := by
  constructor <;>
    simp [etagOf, newMetadata, Keyed.ofList, Keyed.get?_insert, metaEtag, fileEtag,
      Reserved.createdAt, Reserved.updatedAt, Reserved.acl, Json.str?]

theorem renewed_withContent (m : Json.Fields) (contentType : Option String) (length : Nat) :
    Renewed f .file m (some (withContent f m contentType length)) := by
  refine .anew (e := fileEtag) (by simp [Kind.etagKeys]) ?_ ?_
  · simp only [withContent]
    rw [etagOf_insert_of_ne _ _ (by decide), etagOf_insert_self]
  · intro e he hne
    obtain rfl : e = metaEtag := by simpa [Kind.etagKeys, hne] using he
    simp only [withContent]
    rw [etagOf_insert_of_ne _ _ (by decide), etagOf_insert_of_ne _ _ (by decide),
      etagOf_insert_of_ne _ _ (by decide)]
    cases contentType with
    | none => rfl
    | some t => exact etagOf_insert_of_ne _ _ (by decide)

theorem renewed_marked (m : Json.Fields) (v : Json) :
    Renewed f .file m
      (some ((m.insert Reserved.deleted v).insert metaEtag (.str f.first))) := by
  refine .anew (e := metaEtag) (by simp [Kind.etagKeys]) (etagOf_insert_self _ _ _) ?_
  intro e he hne
  obtain rfl : e = fileEtag := by simpa [Kind.etagKeys, hne] using he
  rw [etagOf_insert_of_ne _ _ (by decide), etagOf_insert_of_ne _ _ (by decide)]

theorem made_of_create (h : create s f c bucket key = .ok (reply, s')) :
    Made s f .file bucket key s' := by
  obtain ⟨content, -, h⟩ := exists_of_bind_eq_ok h
  split at h
  · rename_i contentType _
    obtain ⟨acl, -, h⟩ := exists_of_bind_eq_ok h
    split at h
    · cases h
    obtain rfl := store_of_ok h
    refine ⟨_, Store.editedAt_putFile s bucket key _ _, ?_⟩
    obtain ⟨hmeta, hfile⟩ := etagOf_newMetadata (f := f) key contentType content.length
      (c.flag "cacheDisabled") acl
    intro e he
    rcases List.mem_cons.1 he with rfl | he
    · exact ⟨f.first, by simp [Fresh.names], hmeta⟩
    · rw [List.mem_singleton.1 he]
      exact ⟨f.second, by simp [Fresh.names], hfile⟩
  · cases h

theorem written_of_update (h : update s f c bucket key = .ok (reply, s')) :
    Written s f c .file bucket key s' := by
  obtain ⟨content, -, h⟩ := exists_of_bind_eq_ok h
  obtain ⟨file, hfile, h⟩ := exists_of_bind_eq_ok h
  obtain ⟨u, hetags, h⟩ := exists_of_bind_eq_ok h
  obtain rfl := store_of_ok h
  exact ⟨file.metadata, _, entry?_of_lookUp hfile, asked_of_checkEtags hetags,
    renewed_withContent _ _ _, Store.editedAt_putFile s bucket key _ _⟩

theorem written_of_delete (h : delete s f c bucket key = .ok (reply, s')) :
    Written s f c .file bucket key s' := by
  obtain ⟨file, hfile, h⟩ := exists_of_bind_eq_ok h
  obtain ⟨u, hetags, h⟩ := exists_of_bind_eq_ok h
  split at h
  · obtain rfl := store_of_ok h
    exact ⟨file.metadata, _, entry?_of_lookUp hfile, asked_of_checkEtags hetags,
      renewed_marked _ _, Store.editedAt_putFile s bucket key _ _⟩
  · obtain rfl := store_of_ok h
    exact ⟨file.metadata, none, entry?_of_lookUp hfile, asked_of_checkEtags hetags, .gone,
      Store.editedAt_removeFile s bucket key⟩

end Files

/-! ### Calls -/

inductive Changes (s : Store) (f : Fresh) (c : Call) : Store → Prop where
  | kept {s' : Store} (same : ∀ kind, s.SameIn s' kind) : Changes s f c s'
  | made {s' : Store} {kind : Kind} {bucket key : String} (method : c.method = "POST")
      (entry : Made s f kind bucket key s') : Changes s f c s'
  | written {s' : Store} {kind : Kind} {bucket key : String}
      (entry : Written s f c kind bucket key s') : Changes s f c s'

theorem sameIn_self (s : Store) (kind : Kind) : s.SameIn s kind := by
  cases kind <;> rfl

def Action.creates : Action → Bool
  | .createObject _ | .createFile _ _ => true
  | _ => false

/-- Only a call to post makes an entry. -/
theorem Route.method_of_creates {r : Route} {method : String} {a : Action}
    (h : r.action? method = some a) (ha : a.creates = true) : method = "POST" := by
  revert h
  fun_cases action? r method <;> intro h
  case case1 => rfl
  case case5 => rfl
  case case14 => rfl
  case case18 => cases h
  all_goals
    rw [← Option.some.inj h] at ha
    cases ha

theorem store_of_logIn (h : logIn s f c = .ok (reply, s')) :
    s' = s.addSession f.first (f.now.second + sessionLifetime) := by
  obtain ⟨login, -, h⟩ := exists_of_bind_eq_ok h
  split at h
  · cases h
  · exact (store_of_ok h).symm

theorem store_of_logOut (h : logOut s c = .ok (reply, s')) :
    ∃ token, c.header? HeaderName.sessionToken = some token ∧ s' = s.removeSession token := by
  unfold logOut at h
  split at h
  · cases h
  · rename_i token htoken
    exact ⟨token, htoken, (store_of_ok h).symm⟩

theorem Action.changes_run {a : Action} {r : Route} (hr : r.action? c.method = some a)
    (h : a.run s f c = .ok (reply, s')) : Changes s f c s' := by
  have hpost := Route.method_of_creates hr
  cases a with
  | logIn =>
    obtain rfl := store_of_logIn h
    exact .kept fun kind => by cases kind <;> rfl
  | logOut =>
    obtain ⟨token, -, rfl⟩ := store_of_logOut h
    exact .kept fun kind => by cases kind <;> rfl
  | findObjects b =>
    obtain ⟨conditions, -, h⟩ := exists_of_bind_eq_ok h
    obtain rfl := store_of_ok h
    exact .kept (sameIn_self s)
  | createObject b => exact .made (hpost rfl) (Objects.made_of_create h)
  | readObject b i =>
    obtain ⟨fs, -, h⟩ := exists_of_bind_eq_ok h
    split at h
    · obtain rfl := store_of_ok h
      exact .kept (sameIn_self s)
    · cases h
  | updateObject b i => exact .written (Objects.written_of_update h)
  | deleteObject b i => exact .written (Objects.written_of_delete h)
  | listFiles b =>
    obtain rfl := store_of_ok h
    exact .kept (sameIn_self s)
  | readFile b n =>
    obtain ⟨file, -, h⟩ := exists_of_bind_eq_ok h
    split at h
    · cases h
    obtain rfl := store_of_ok h
    exact .kept (sameIn_self s)
  | createFile b n => exact .made (hpost rfl) (Files.made_of_create h)
  | updateFile b n => exact .written (Files.written_of_update h)
  | deleteFile b n => exact .written (Files.written_of_delete h)
  | callCustom n p =>
    obtain ⟨content, -, h⟩ := exists_of_bind_eq_ok h
    split at h
    · obtain rfl := store_of_ok h
      exact .kept (sameIn_self s)
    · obtain rfl := store_of_ok h
      exact .kept (sameIn_self s)

theorem changes_answer (s : Store) (f : Fresh) (c : Call) : Changes s f c (answer s f c).2 := by
  cases hpath : Route.ofPath? c.path with
  | none =>
    rw [answer_of_unknown hpath]
    exact .kept (sameIn_self s)
  | some raw =>
    obtain ⟨reply, s', hok, ha⟩ | ⟨refusal, -, ha⟩ := answer_cases (s := s) (f := f) hpath
    · rw [ha]
      obtain ⟨u, -, h⟩ := exists_of_bind_eq_ok hok
      split at h
      · obtain ⟨r, -, h⟩ := exists_of_bind_eq_ok h
        unfold Route.perform at h
        split at h
        · rename_i a haction
          exact Action.changes_run haction h
        · obtain rfl := store_of_ok h
          exact .kept (sameIn_self s)
      · obtain rfl := store_of_ok h
        exact .kept (sameIn_self s)
    · rw [ha]
      exact .kept (sameIn_self s)

/-! ### Calls that succeed -/

/-- The entry that a route leads to. -/
def Route.entry? : Route → Option (Kind × String × String)
  | .object bucket id => some (.object, bucket, id)
  | .file bucket name => some (.file, bucket, name)
  | _ => none

/-- The entry that a call is about, its path decoded. -/
def Call.entry? (c : Call) : Option (Kind × String × String) := do
  let r ← Route.ofPath? c.path
  let r ← r.decoded.toOption
  r.entry?

def Call.isWrite (c : Call) : Prop := c.method = "PUT" ∨ c.method = "DELETE"

theorem decoded_of_entry? {kind : Kind} (h : c.entry? = some (kind, bucket, key)) :
    ∃ raw r, Route.ofPath? c.path = some raw ∧ raw.decoded = .ok r ∧
      r.entry? = some (kind, bucket, key) := by
  obtain ⟨raw, hraw, h⟩ := Option.bind_eq_some_iff.1 h
  obtain ⟨r, hr, h⟩ := Option.bind_eq_some_iff.1 h
  exact ⟨raw, r, hraw, eq_ok_of_toOption hr, h⟩

/-- A call to put or to delete an entry that succeeds has written the entry. -/
theorem written_of_success {kind : Kind} (hw : c.isWrite)
    (he : c.entry? = some (kind, bucket, key)) (hs : (answer s f c).1.status < 300) :
    Written s f c kind bucket key (answer s f c).2 := by
  obtain ⟨raw, r, hraw, hdecoded, hentry⟩ := decoded_of_entry? he
  obtain ⟨reply, s', hok, ha⟩ | ⟨refusal, -, ha⟩ := answer_cases (s := s) (f := f) hraw
  · have htakes : r.takes c.method = true := by
      cases r <;> cases hentry <;> rcases hw with hw | hw <;> rw [hw] <;> rfl
    have hperform := (Route.perform_of_answer hdecoded htakes hok).2
    rw [ha]
    unfold Route.perform at hperform
    cases r with
    | object b i =>
      cases hentry
      rcases hw with hw | hw
      · rw [hw] at hperform
        exact Objects.written_of_update hperform
      · rw [hw] at hperform
        exact Objects.written_of_delete hperform
    | file b n =>
      cases hentry
      rcases hw with hw | hw
      · rw [hw] at hperform
        exact Files.written_of_update hperform
      · rw [hw] at hperform
        exact Files.written_of_delete hperform
    | login => cases hentry
    | bucketObjects b => cases hentry
    | bucketFiles b => cases hentry
    | custom n rest => cases hentry
  · have hle := refusal.le_status
    have hsame := Route.status_sent c raw refusal.reply
    rw [ha] at hs
    simp only [hsame] at hs
    omega

/-- A call to put or to delete after which the entries of a kind are not what they were has written
one of them. -/
theorem written_of_changed {kind : Kind} (hw : c.isWrite)
    (h : ¬ s.SameIn (answer s f c).2 kind) :
    ∃ bucket key, Written s f c kind bucket key (answer s f c).2 := by
  cases changes_answer s f c with
  | kept same => exact absurd (same kind) h
  | made method entry =>
    rcases hw with hw | hw
    · exact absurd (method.symm.trans hw) (by decide)
    · exact absurd (method.symm.trans hw) (by decide)
  | @written kind' bucket key entry =>
    by_cases hk : kind = kind'
    · subst hk
      exact ⟨bucket, key, entry⟩
    · have hentry := entry
      obtain ⟨fs, new, -, -, -, hedit⟩ := hentry
      exact absurd (hedit.others kind hk) h

end

end AppBackend.Server
