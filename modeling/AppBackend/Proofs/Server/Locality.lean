import AppBackend.Proofs.Server.Changes

/-!
# What a call leaves alone

A store is a map from places to what is held there: objects, files and sessions. An answer that reads
as an error leaves the store as it was; any other changes at most the one place that its call leads
to. Main statements: `answer_effect`, all that an answer can do, and `held?_answerAll`, calls that
lead elsewhere leave a place alone.
-/

namespace AppBackend.Server

/-! ### Places -/

inductive Place where
  | object (bucket id : String)
  | file (bucket name : String)
  | session (token : String)
deriving DecidableEq

inductive Held where
  | object (fs : Json.Fields)
  | file (file : StoredFile)
  /-- With the time at which the session runs out. -/
  | session (expiry : Int)

namespace Store

def held? (s : Store) : Place → Option Held
  | .object bucket id => (s.object? bucket id).map .object
  | .file bucket name => (s.file? bucket name).map .file
  | .session token => (s.sessions.get? token).map .session

/-- One place gets a new content, or none, and the others keep theirs. -/
def SetAt (s : Store) (p : Place) (x : Option Held) (s' : Store) : Prop :=
  ∀ q, s'.held? q = if q = p then x else s.held? q

variable (s : Store)

theorem SetAt.self {s s' : Store} {p : Place} {x : Option Held} (h : s.SetAt p x s') :
    s'.held? p = x := by
  rw [h p, if_pos rfl]

theorem SetAt.of_ne {s s' : Store} {p q : Place} {x : Option Held} (h : s.SetAt p x s')
    (hq : q ≠ p) : s'.held? q = s.held? q := by
  rw [h q, if_neg hq]

theorem setAt_putObject (bucket id : String) (fs : Json.Fields) :
    s.SetAt (.object bucket id) (some (.object fs)) (s.putObject bucket id fs) := by
  intro q
  cases q with
  | object b i =>
    simp only [held?, object?_putObject, Place.object.injEq, eq_comm (a := b), eq_comm (a := i)]
    split <;> rfl
  | file b n => rfl
  | session token => rfl

theorem setAt_removeObject (bucket id : String) :
    s.SetAt (.object bucket id) none (s.removeObject bucket id) := by
  intro q
  cases q with
  | object b i =>
    simp only [held?, object?_removeObject, Place.object.injEq, eq_comm (a := b),
      eq_comm (a := i)]
    split <;> rfl
  | file b n => rfl
  | session token => rfl

theorem setAt_putFile (bucket name : String) (file : StoredFile) :
    s.SetAt (.file bucket name) (some (.file file)) (s.putFile bucket name file) := by
  intro q
  cases q with
  | object b i => rfl
  | file b n =>
    simp only [held?, file?_putFile, Place.file.injEq, eq_comm (a := b), eq_comm (a := n)]
    split <;> rfl
  | session token => rfl

theorem setAt_removeFile (bucket name : String) :
    s.SetAt (.file bucket name) none (s.removeFile bucket name) := by
  intro q
  cases q with
  | object b i => rfl
  | file b n =>
    simp only [held?, file?_removeFile, Place.file.injEq, eq_comm (a := b), eq_comm (a := n)]
    split <;> rfl
  | session token => rfl

theorem setAt_addSession (token : String) (expiry : Int) :
    s.SetAt (.session token) (some (.session expiry)) (s.addSession token expiry) := by
  intro q
  cases q with
  | object b i => rfl
  | file b n => rfl
  | session other =>
    simp only [held?, session_addSession, Place.session.injEq, eq_comm (a := other)]
    split <;> rfl

theorem setAt_removeSession (token : String) :
    s.SetAt (.session token) none (s.removeSession token) := by
  intro q
  cases q with
  | object b i => rfl
  | file b n => rfl
  | session other =>
    simp only [held?, session_removeSession, Place.session.injEq, eq_comm (a := other)]
    split <;> rfl

end Store

/-! ### Where a call leads -/

namespace Action

/-- The place that an action may change. -/
def place? (f : Fresh) (c : Call) : Action → Option Place
  | logIn => some (.session f.first)
  | logOut => (c.header? HeaderName.sessionToken).map .session
  | createObject b => some (.object b f.first)
  | updateObject b i | deleteObject b i => some (.object b i)
  | createFile b n | updateFile b n | deleteFile b n => some (.file b n)
  | findObjects _ | readObject _ _ | listFiles _ | readFile _ _ | callCustom _ _ => none

/-- What an action that gets through leaves in its place. -/
def Leaves (f : Fresh) (c : Call) : Action → Option Held → Prop
  | logIn, x => x = some (.session (f.now.second + sessionLifetime))
  | logOut, x => x = none
  | createObject _, x | updateObject _ _, x => ∃ fs, x = some (.object fs)
  | deleteObject _ _, x => x = none ∨ ∃ fs, x = some (.object fs) ∧ isDeleted fs = true
  | createFile _ _, x | updateFile _ _, x => ∃ m, x = some (.file ⟨m, c.body⟩)
  | deleteFile _ _, x => x = none ∨ ∃ file, x = some (.file file) ∧ isDeleted file.metadata = true
  | _, _ => False

end Action

namespace Call

/-- What a call asks for, its path decoded. -/
def action? (c : Call) : Option Action := do
  let r ← Route.ofPath? c.path
  let r ← r.decoded.toOption
  r.action? c.method

/-- The place that a call leads to: the entry of its path, the object or the session that it makes,
or the session that it ends. -/
def place? (f : Fresh) (c : Call) : Option Place := c.action?.bind (Action.place? f c)

def isRead (c : Call) : Bool := c.method == "GET" || c.method == "HEAD"

end Call

/-- The entry at a place; a session is none. -/
def Place.entry? : Place → Option (Kind × String × String)
  | .object bucket id => some (.object, bucket, id)
  | .file bucket name => some (.file, bucket, name)
  | .session _ => none

/-- An action leads to the entry of its route, to a new object or to a session. -/
theorem Route.entry?_of_place? {r : Route} {c : Call} {f : Fresh} {method : String} {a : Action}
    {p : Place} (h : r.action? method = some a) (hp : a.place? f c = some p) :
    r.entry? = p.entry? ∨ (∃ b, p = .object b f.first) ∨ ∃ t, p = .session t := by
  revert h
  fun_cases action? r method <;> intro h
  case case2 =>
    obtain rfl := Option.some.inj h
    obtain ⟨token, -, rfl⟩ := Option.map_eq_some_iff.1 hp
    exact Or.inr (Or.inr ⟨token, rfl⟩)
  case case18 => cases h
  all_goals
    obtain rfl := Option.some.inj h
    cases hp
  all_goals first
    | exact Or.inl rfl
    | exact Or.inr (Or.inl ⟨_, rfl⟩)

/-- A call about another entry, or about none, leads to an entry only if it makes it. -/
theorem place?_ne_of_entry? {c : Call} {f : Fresh} {p : Place} (he : c.entry? ≠ p.entry?)
    (hnew : ∀ b, p ≠ .object b f.first) (hentry : p.entry?.isSome = true) :
    c.place? f ≠ some p := by
  intro hp
  obtain ⟨a, ha, hp⟩ := Option.bind_eq_some_iff.1 hp
  obtain ⟨raw, hraw, ha⟩ := Option.bind_eq_some_iff.1 ha
  obtain ⟨r, hr, ha⟩ := Option.bind_eq_some_iff.1 ha
  obtain hsame | ⟨b, rfl⟩ | ⟨t, rfl⟩ := Route.entry?_of_place? ha hp
  · refine he ?_
    rw [← hsame]
    simp [Call.entry?, hraw, hr]
  · exact hnew b rfl
  · cases hentry

theorem Route.place?_of_read {r : Route} {c : Call} {a : Action} (f : Fresh)
    (h : r.action? c.method = some a) (hr : c.isRead = true) : a.place? f c = none := by
  simp only [Call.isRead, Bool.or_eq_true, beq_iff_eq] at hr
  rcases hr with hr | hr <;> rw [hr] at h <;> cases r <;> cases h <;> rfl

theorem place?_of_isRead {c : Call} (f : Fresh) (h : c.isRead = true) : c.place? f = none := by
  rw [Call.place?, Option.bind_eq_none_iff]
  intro a ha
  obtain ⟨raw, -, ha⟩ := Option.bind_eq_some_iff.1 ha
  obtain ⟨r, -, ha⟩ := Option.bind_eq_some_iff.1 ha
  exact Route.place?_of_read f ha h

theorem Route.custom_of_decoded {name : String} {rest : Option String} {r : Route}
    (h : (custom name rest).decoded = .ok r) : ∃ name' rest', r = custom name' rest' := by
  cases rest with
  | none =>
    obtain ⟨name', -, rfl⟩ := exists_of_map_eq_ok h
    exact ⟨name', none, rfl⟩
  | some rest =>
    obtain ⟨name', -, h⟩ := exists_of_bind_eq_ok h
    obtain ⟨rest', -, h⟩ := exists_of_bind_eq_ok h
    exact ⟨name', some rest', (Except.ok.inj h).symm⟩

theorem place?_of_custom {c : Call} {name : String} {rest : Option String} (f : Fresh)
    (h : Route.ofPath? c.path = some (.custom name rest)) : c.place? f = none := by
  rw [Call.place?, Option.bind_eq_none_iff]
  intro a ha
  obtain ⟨raw, hraw, ha⟩ := Option.bind_eq_some_iff.1 ha
  obtain ⟨r, hr, ha⟩ := Option.bind_eq_some_iff.1 ha
  obtain rfl : raw = .custom name rest := Option.some.inj (hraw.symm.trans h)
  obtain ⟨name', rest', rfl⟩ := Route.custom_of_decoded (eq_ok_of_toOption hr)
  cases ha
  rfl

/-! ### What an action does -/

section
variable {s s' : Store} {f : Fresh} {c : Call} {bucket key : String} {reply : Reply}

theorem reply_of_ok {r : Reply} {t : Store} (h : (.ok (r, t) : Answer) = .ok (reply, s')) :
    r = reply := congrArg Prod.fst (Except.ok.inj h)

theorem isDeleted_insert_deleted (fs : Json.Fields) (b : Bool) :
    isDeleted (fs.insert Reserved.deleted (.bool b)) = b := by
  rw [isDeleted, Keyed.get?_insert_self]

theorem isDeleted_insert_of_ne (fs : Json.Fields) {key : String} (v : Json)
    (h : key ≠ Reserved.deleted) : isDeleted (fs.insert key v) = isDeleted fs := by
  rw [isDeleted, Keyed.get?_insert_of_ne fs v h, isDeleted]

theorem Objects.isDeleted_renew (fs : Json.Fields) (etag : String) (now : Timestamp) :
    isDeleted (renew fs etag now) = isDeleted fs := by
  rw [renew, isDeleted_insert_of_ne _ _ (by decide), isDeleted_insert_of_ne _ _ (by decide)]

theorem Call.eq_of_content {content : Bytes} (h : c.content = .ok content) : content = c.body := by
  unfold Call.content at h
  split at h
  · cases h
  · exact (Except.ok.inj h).symm

/-- An action that gets through has no place to change, or it changes that place and does not read
as an error. -/
def Action.Does (s : Store) (f : Fresh) (c : Call) (a : Action) (reply : Reply) (s' : Store) :
    Prop :=
  s' = s ∧ a.place? f c = none ∨
    ∃ p x, a.place? f c = some p ∧ reply.status < 400 ∧ s.SetAt p x s' ∧ a.Leaves f c x

theorem Action.does_of_json {a : Action} {p : Place} {x : Option Held} {status : Nat} {v : Json}
    {t : Store} (h : (.ok (.json status v, t) : Answer) = .ok (reply, s')) (hs : status < 400)
    (hp : a.place? f c = some p) (hset : s.SetAt p x t) (hx : a.Leaves f c x) :
    a.Does s f c reply s' := by
  obtain rfl := store_of_ok h
  obtain rfl := reply_of_ok h
  exact Or.inr ⟨p, x, hp, hs, hset, hx⟩

theorem Objects.does_delete (h : delete s f c bucket key = .ok (reply, s')) :
    (Action.deleteObject bucket key).Does s f c reply s' := by
  obtain ⟨fs, -, h⟩ := exists_of_bind_eq_ok h
  obtain ⟨u, -, h⟩ := exists_of_bind_eq_ok h
  split at h
  · have hmarked : isDeleted (renew (fs.insert Reserved.deleted (.bool true)) f.first f.now)
        = true := by
      rw [isDeleted_renew, isDeleted_insert_deleted]
    exact Action.does_of_json h (by decide) rfl (s.setAt_putObject bucket key _)
      (Or.inr ⟨_, rfl, hmarked⟩)
  · exact Action.does_of_json h (by decide) rfl (s.setAt_removeObject bucket key) (Or.inl rfl)

theorem Files.does_create (h : create s f c bucket key = .ok (reply, s')) :
    (Action.createFile bucket key).Does s f c reply s' := by
  obtain ⟨content, hcontent, h⟩ := exists_of_bind_eq_ok h
  obtain rfl := Call.eq_of_content hcontent
  split at h
  · obtain ⟨acl, -, h⟩ := exists_of_bind_eq_ok h
    split at h
    · cases h
    exact Action.does_of_json h (by decide) rfl (s.setAt_putFile bucket key _) ⟨_, rfl⟩
  · cases h

theorem Files.does_update (h : update s f c bucket key = .ok (reply, s')) :
    (Action.updateFile bucket key).Does s f c reply s' := by
  obtain ⟨content, hcontent, h⟩ := exists_of_bind_eq_ok h
  obtain rfl := Call.eq_of_content hcontent
  obtain ⟨file, -, h⟩ := exists_of_bind_eq_ok h
  obtain ⟨u, -, h⟩ := exists_of_bind_eq_ok h
  exact Action.does_of_json h (by decide) rfl (s.setAt_putFile bucket key _) ⟨_, rfl⟩

theorem Files.does_delete (h : delete s f c bucket key = .ok (reply, s')) :
    (Action.deleteFile bucket key).Does s f c reply s' := by
  obtain ⟨file, -, h⟩ := exists_of_bind_eq_ok h
  obtain ⟨u, -, h⟩ := exists_of_bind_eq_ok h
  split at h
  · have hmarked : isDeleted ((file.metadata.insert Reserved.deleted (.bool true)).insert metaEtag
        (.str f.first)) = true := by
      rw [isDeleted_insert_of_ne _ _ (by decide), isDeleted_insert_deleted]
    exact Action.does_of_json h (by decide) rfl (s.setAt_putFile bucket key _)
      (Or.inr ⟨_, rfl, hmarked⟩)
  · exact Action.does_of_json h (by decide) rfl (s.setAt_removeFile bucket key) (Or.inl rfl)

theorem Action.does_run {a : Action} (h : a.run s f c = .ok (reply, s')) :
    a.Does s f c reply s' := by
  cases a with
  | logIn =>
    obtain ⟨login, -, h⟩ := exists_of_bind_eq_ok h
    split at h
    · cases h
    exact does_of_json h (by decide) rfl (s.setAt_addSession _ _) rfl
  | logOut =>
    simp only [run, Server.logOut] at h
    split at h
    · cases h
    rename_i token htoken
    have hplace : logOut.place? f c = some (.session token) := by
      rw [place?, htoken, Option.map_some]
    exact does_of_json h (by decide) hplace (s.setAt_removeSession token) rfl
  | findObjects b =>
    obtain ⟨conditions, -, h⟩ := exists_of_bind_eq_ok h
    exact Or.inl ⟨(store_of_ok h).symm, rfl⟩
  | createObject b =>
    obtain ⟨given, -, h⟩ := exists_of_bind_eq_ok h
    exact does_of_json h (by decide) rfl (s.setAt_putObject b f.first _) ⟨_, rfl⟩
  | readObject b i =>
    obtain ⟨fs, -, h⟩ := exists_of_bind_eq_ok h
    split at h
    · exact Or.inl ⟨(store_of_ok h).symm, rfl⟩
    · cases h
  | updateObject b i =>
    obtain ⟨given, -, h⟩ := exists_of_bind_eq_ok h
    obtain ⟨fs, -, h⟩ := exists_of_bind_eq_ok h
    obtain ⟨u, -, h⟩ := exists_of_bind_eq_ok h
    obtain ⟨gs, -, h⟩ := exists_of_bind_eq_ok h
    exact does_of_json h (by decide) rfl (s.setAt_putObject b i _) ⟨_, rfl⟩
  | deleteObject b i => exact Objects.does_delete h
  | listFiles b => exact Or.inl ⟨(store_of_ok h).symm, rfl⟩
  | readFile b n =>
    obtain ⟨file, -, h⟩ := exists_of_bind_eq_ok h
    split at h
    · cases h
    exact Or.inl ⟨(store_of_ok h).symm, rfl⟩
  | createFile b n => exact Files.does_create h
  | updateFile b n => exact Files.does_update h
  | deleteFile b n => exact Files.does_delete h
  | callCustom n p =>
    obtain ⟨content, -, h⟩ := exists_of_bind_eq_ok h
    split at h
    · exact Or.inl ⟨(store_of_ok h).symm, rfl⟩
    · exact Or.inl ⟨(store_of_ok h).symm, rfl⟩

/-! ### What a call does -/

/-- A call is turned away and changes nothing, or what it asks for is run. -/
theorem answer_runs (s : Store) (f : Fresh) (c : Call) :
    (answer s f c).2 = s ∧ 400 ≤ (answer s f c).1.status ∨
      ∃ a reply, c.action? = some a ∧ a.run s f c = .ok (reply, (answer s f c).2) ∧
        (answer s f c).1.status = reply.status := by
  cases hpath : Route.ofPath? c.path with
  | none =>
    rw [answer_of_unknown hpath]
    exact Or.inl ⟨rfl, by simp [Reply.empty]⟩
  | some raw =>
    obtain ⟨reply, s', hok, ha⟩ | ⟨refusal, -, ha⟩ := answer_cases (s := s) (f := f) hpath
    · have hstatus := Route.status_sent c raw reply
      rw [ha]
      obtain ⟨u, -, h⟩ := exists_of_bind_eq_ok hok
      split at h
      · rename_i htakes
        obtain ⟨r, hr, h⟩ := exists_of_bind_eq_ok h
        rw [Route.takes_of_decoded hr] at htakes
        obtain ⟨a, haction, hperform⟩ := Route.exists_action_of_takes htakes s f
        rw [hperform] at h
        refine Or.inr ⟨a, reply, ?_, h, hstatus⟩
        simp [Call.action?, hpath, hr, haction, Except.toOption]
      · obtain rfl := store_of_ok h
        obtain rfl := reply_of_ok h
        exact Or.inl ⟨rfl, by rw [hstatus]; simp [Reply.empty]⟩
    · rw [ha]
      exact Or.inl ⟨rfl, by rw [Route.status_sent]; exact refusal.le_status⟩

/-- A call is turned away and changes nothing, or it does what it asks for. -/
theorem answer_effect (s : Store) (f : Fresh) (c : Call) :
    (answer s f c).2 = s ∧ 400 ≤ (answer s f c).1.status ∨
      ∃ a, c.action? = some a ∧ a.Does s f c (answer s f c).1 (answer s f c).2 := by
  obtain hsame | ⟨a, reply, ha, hrun, hstatus⟩ := answer_runs s f c
  · exact Or.inl hsame
  · refine Or.inr ⟨a, ha, ?_⟩
    rw [Action.Does, hstatus]
    exact Action.does_run hrun

/-- A call leaves every place alone that it does not lead to. -/
theorem held?_answer {q : Place} (h : c.place? f ≠ some q) :
    (answer s f c).2.held? q = s.held? q := by
  obtain ⟨hsame, -⟩ | ⟨a, ha, ⟨hsame, -⟩ | ⟨p, x, hp, -, hset, -⟩⟩ := answer_effect s f c
  · rw [hsame]
  · rw [hsame]
  · refine hset.of_ne ?_
    rintro rfl
    exact h (by rw [Call.place?, ha, Option.bind_some, hp])

/-- A call that leads nowhere changes nothing. -/
theorem answer_of_place?_eq_none (h : c.place? f = none) : (answer s f c).2 = s := by
  obtain ⟨hsame, -⟩ | ⟨a, ha, ⟨hsame, -⟩ | ⟨p, x, hp, -⟩⟩ := answer_effect s f c
  · exact hsame
  · exact hsame
  · rw [Call.place?, ha, Option.bind_some, hp] at h
    cases h

/-- What any call does to a store. It leaves every place alone that it does not lead to. If its
answer reads as an error, or if it only reads, or if it is for a custom interface, then the store
stays as it was. If its answer does not read as an error, then it leaves in the place that it leads
to what it has asked for. -/
theorem answer_is_atomic_and_local (s : Store) (f : Fresh) (c : Call) :
    (400 ≤ (answer s f c).1.status → (answer s f c).2 = s) ∧
    (c.isRead = true ∨ (∃ name rest, Route.ofPath? c.path = some (.custom name rest)) →
      (answer s f c).2 = s) ∧
    (∀ q, c.place? f ≠ some q → (answer s f c).2.held? q = s.held? q) ∧
    ((answer s f c).1.status < 400 → ∀ a p, c.action? = some a → a.place? f c = some p →
      a.Leaves f c ((answer s f c).2.held? p)) := by
  refine ⟨fun herror => ?_, fun hread => ?_, fun q hq => held?_answer hq,
    fun hstatus a p ha hp => ?_⟩
  · obtain ⟨hsame, -⟩ | ⟨a, -, ⟨hsame, -⟩ | ⟨p, x, -, hstatus, -⟩⟩ := answer_effect s f c
    · exact hsame
    · exact hsame
    · omega
  · refine answer_of_place?_eq_none ?_
    rcases hread with hread | ⟨name, rest, hpath⟩
    · exact place?_of_isRead f hread
    · exact place?_of_custom f hpath
  · obtain ⟨-, herror⟩ | ⟨a', ha', hdoes⟩ := answer_effect s f c
    · omega
    obtain rfl : a' = a := Option.some.inj (ha'.symm.trans ha)
    obtain ⟨-, hnowhere⟩ | ⟨p', x, hp', -, hset, hleaves⟩ := hdoes
    · rw [hp] at hnowhere
      cases hnowhere
    · obtain rfl : p' = p := Option.some.inj (hp'.symm.trans hp)
      rw [hset.self]
      exact hleaves

end

/-- Over one store: a login adds its session and keeps the object, a logout without a session is
refused, and reading a file that is not there changes nothing. -/
theorem answer_is_atomic_and_local_of_login :
    let s : Store := { objects := [("b", [("1", [])])] }
    let f : Fresh := ⟨⟨5, 0⟩, "t", "e"⟩
    let headers : Pairs := [("X-Application-Id", "app-id"), ("X-Application-Key", "app-key"),
      ("Content-Type", "application/json")]
    let body := Utf8.ofString "\x7b\"email\":\"alice@example.com\",\"password\":\"secret\"\x7d"
    let login : Call := ⟨"POST", "/1/tenant/login", "", headers, body⟩
    let logout : Call := ⟨"DELETE", "/1/tenant/login", "", headers, []⟩
    let read : Call := ⟨"GET", "/1/tenant/files/b/1", "", headers, []⟩
    (answer s f login).2.held? (.session "t") = some (.session 3605) ∧
      (answer s f login).2.held? (.object "b" "1") = s.held? (.object "b" "1") ∧
      (answer s f logout).2 = s ∧ (answer s f read).2 = s := by
  intro s f headers body login logout read
  obtain ⟨-, -, hothers, hleaves⟩ := answer_is_atomic_and_local s f login
  refine ⟨?_, ?_, ?_, ?_⟩
  · exact hleaves (by decide +kernel) .logIn (.session "t") (by decide +kernel) rfl
  · exact hothers (.object "b" "1") (by decide +kernel)
  · exact (answer_is_atomic_and_local s f logout).1 (by decide +kernel)
  · exact (answer_is_atomic_and_local s f read).2.1 (Or.inl rfl)

/-! ### Calls in turn -/

namespace Backend

/-- The server after calls in turn. -/
def answerAll (fresh : Nat → Fresh) (cs : List Call) (b : Backend) : Backend :=
  cs.foldl (fun b c => (b.answer fresh c).2) b

variable (fresh : Nat → Fresh) (cs : List Call) (b : Backend)

/-- Calls that never lead to a place leave it alone. -/
theorem held?_answerAll {q : Place}
    (h : ∀ c ∈ cs, ∀ n, b.calls ≤ n → c.place? (fresh n) ≠ some q) :
    (b.answerAll fresh cs).store.held? q = b.store.held? q := by
  induction cs generalizing b with
  | nil => rfl
  | cons c cs ih =>
    have hone : (b.answer fresh c).2.store.held? q = b.store.held? q :=
      held?_answer (h c (List.mem_cons_self ..) b.calls (Nat.le_refl _))
    rw [answerAll, List.foldl_cons, ← answerAll, ← hone]
    refine ih _ fun d hd n hn => h d (List.mem_cons_of_mem _ hd) n ?_
    exact Nat.le_trans (Nat.le_succ _) hn

end Backend

end AppBackend.Server
