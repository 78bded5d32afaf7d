import AppBackend.Network.Agent

/-!
# When an agent can be built

Building an agent fails for a few causes, each of them a fault of the settings or of the files that
they name, and it does not depend on how paths are spelled, but for a path that ends as that of a
folder: that names no file. Main statements: `build_fails_iff`; `build_agrees`, settings that are
the same never give different agents; and `build_of_same`, those that name files give the same one.
-/

namespace AppBackend.Network

variable {α β : Type}

/-! ### Failing -/

def Fails (x : Except Fault α) : Prop := ∃ f, x = .error f

@[simp] theorem fails_error (f : Fault) : Fails (.error f : Except Fault α) := ⟨f, rfl⟩

@[simp] theorem fails_throw (f : Fault) : Fails (throw f : Except Fault α) := ⟨f, rfl⟩

@[simp] theorem not_fails_ok (a : α) : ¬ Fails (.ok a) := nofun

@[simp] theorem not_fails_pure (a : α) : ¬ Fails (pure a) := nofun

/-- Of two steps one fails, if the second does not depend on what the first gives. -/
theorem fails_bind_iff {x : Except Fault α} {f : α → Except Fault β} {P : Prop}
    (h : ∀ a, Fails (f a) ↔ P) : Fails (x >>= f) ↔ Fails x ∨ P := by
  cases x with
  | error fault => exact iff_of_true ⟨fault, rfl⟩ (.inl ⟨fault, rfl⟩)
  | ok a =>
    have hfirst : ¬ Fails (.ok a : Except Fault α) := not_fails_ok a
    exact (h a).trans (or_iff_right hfirst).symm

section
variable (parse : Bytes → Option α)

theorem parsed_fails_iff (path : String) (file : Bytes) :
    Fails (parsed parse path file) ↔ parse file = none := by
  unfold parsed
  cases parse file with
  | some x => simp
  | none => simp

theorem load_fails_iff (d : Disk) (path : String) :
    Fails (load parse d path) ↔ ∀ file, d.read? path = some file → parse file = none := by
  unfold load readFile
  cases hread : d.read? path with
  | none =>
    refine iff_of_true (fails_error _) ?_
    intro file hfile
    cases hfile
  | some file =>
    refine (parsed_fails_iff parse path file).trans ?_
    simp

theorem mapM_fails_iff (path : String) (files : List Bytes) :
    Fails (files.mapM (parsed parse path)) ↔ ∃ file ∈ files, parse file = none := by
  induction files with
  | nil => simp
  | cons file files ih =>
    rw [List.mapM_cons, fails_bind_iff fun x => fails_bind_iff fun rest =>
      iff_of_false (not_fails_pure (x :: rest)) not_false]
    rw [parsed_fails_iff, ih, or_false]
    simp

end

theorem loadFolder_fails_iff (parse : Bytes → Option (List α)) (d : Disk) (path : String) :
    Fails (loadFolder parse d path) ↔
      ∀ files, d.filesIn? path = some files → ∃ file ∈ files, parse file = none := by
  unfold loadFolder
  cases hfiles : d.filesIn? path with
  | none =>
    refine iff_of_true (fails_throw _) ?_
    intro files h
    cases h
  | some files =>
    dsimp only
    rw [fails_bind_iff fun found : List (List α) =>
      iff_of_false (not_fails_pure found.flatten) not_false]
    rw [mapM_fails_iff, or_false]
    simp

theorem ifSet_fails_iff (read : String → Except Fault (List α)) (path : Option String) :
    Fails (ifSet read path) ↔ ∃ p, path = some p ∧ Fails (read p) := by
  cases path with
  | none => simp [ifSet]
  | some p => simp [ifSet]

section
variable (lib : Readers) (d : Disk)

/-- What no agent can be built from: a proxy that cannot be used, a file of certificates or of a key
that cannot be read or is malformed, or only one of a certificate and its key. -/
inductive Misconfigured (s : Settings) : Prop where
  | badProxy (hset : s.proxy ≠ "") (hbad : lib.proxy? s.proxy = none)
  | caInfo {path : String} (hset : s.options.caInfo = some path)
      (hbad : ∀ file, d.read? path = some file → lib.certificates? file = none)
  | caPath {path : String} (hset : s.options.caPath = some path)
      (hbad : ∀ files, d.filesIn? path = some files →
        ∃ file ∈ files, lib.certificates? file = none)
  | clientCert {path : String} (hset : s.options.clientCert = some path)
      (hbad : ∀ file, d.read? path = some file → lib.certificates? file = none)
  | clientKey {path : String} (hset : s.options.clientKey = some path)
      (hbad : ∀ file, d.read? path = some file → lib.privateKey? file = none)
  | halfIdentity (hhalf : s.options.clientCert.isSome ≠ s.options.clientKey.isSome)

theorem proxy?_fails_iff (s : Settings) :
    Fails (proxy? lib s) ↔ s.proxy ≠ "" ∧ lib.proxy? s.proxy = none := by
  unfold proxy?
  split
  · rename_i hempty
    simp [hempty]
  · rename_i hset
    cases hread : lib.proxy? s.proxy with
    | some p => simp
    | none => simp [hset]

theorem roots_fails_iff (o : TransportOptions) :
    Fails (roots lib d o) ↔
      (∃ path, o.caInfo = some path ∧ Fails (load lib.certificates? d path)) ∨
      ∃ path, o.caPath = some path ∧ Fails (loadFolder lib.certificates? d path) := by
  unfold roots
  rw [fails_bind_iff fun single => fails_bind_iff fun folder =>
    iff_of_false (not_fails_pure (single ++ folder)) not_false]
  rw [ifSet_fails_iff, ifSet_fails_iff, or_false]

theorem identity_fails_iff (o : TransportOptions) :
    Fails (identity lib d o) ↔
      (∃ path, o.clientCert = some path ∧ Fails (load lib.certificates? d path)) ∨
      (∃ path, o.clientKey = some path ∧ Fails (load lib.privateKey? d path)) ∨
      o.clientCert.isSome ≠ o.clientKey.isSome := by
  unfold identity
  cases hcert : o.clientCert with
  | none =>
    cases hkey : o.clientKey with
    | none => simp
    | some key => simp
  | some cert =>
    cases hkey : o.clientKey with
    | none => simp
    | some key =>
      dsimp only
      rw [fails_bind_iff fun chain => fails_bind_iff fun k =>
        iff_of_false (not_fails_pure (some (Identity.mk chain k))) not_false]
      simp

theorem build_fails_iff (s : Settings) : Fails (build lib d s) ↔ Misconfigured lib d s := by
  have hsteps : Fails (build lib d s) ↔
      Fails (proxy? lib s) ∨ Fails (roots lib d s.options) ∨ Fails (identity lib d s.options) := by
    unfold build
    rw [fails_bind_iff fun p => fails_bind_iff fun rs => fails_bind_iff fun i =>
      iff_of_false (not_fails_pure (Agent.mk p s.timeout rs i s.options.verifyPeer)) not_false]
    rw [or_false]
  rw [hsteps, proxy?_fails_iff, roots_fails_iff, identity_fails_iff]
  simp only [load_fails_iff, loadFolder_fails_iff]
  constructor
  · rintro (⟨hset, hbad⟩ | (⟨path, hset, hbad⟩ | ⟨path, hset, hbad⟩) |
      ⟨path, hset, hbad⟩ | ⟨path, hset, hbad⟩ | hhalf)
    · exact .badProxy hset hbad
    · exact .caInfo hset hbad
    · exact .caPath hset hbad
    · exact .clientCert hset hbad
    · exact .clientKey hset hbad
    · exact .halfIdentity hhalf
  · intro h
    cases h with
    | badProxy hset hbad => exact .inl ⟨hset, hbad⟩
    | caInfo hset hbad => exact .inr (.inl (.inl ⟨_, hset, hbad⟩))
    | caPath hset hbad => exact .inr (.inl (.inr ⟨_, hset, hbad⟩))
    | clientCert hset hbad => exact .inr (.inr (.inl ⟨_, hset, hbad⟩))
    | clientKey hset hbad => exact .inr (.inr (.inr (.inl ⟨_, hset, hbad⟩)))
    | halfIdentity hhalf => exact .inr (.inr (.inr (.inr hhalf)))

end

/-! ### Spelling -/

/-- Where both give something, they give the same. -/
def Agree (x y : Except Fault α) : Prop := ∀ a b, x = .ok a → y = .ok b → a = b

theorem Agree.refl (x : Except Fault α) : Agree x x := by
  intro a b ha hb
  exact Except.ok.inj (ha.symm.trans hb)

theorem Agree.bind {x y : Except Fault α} {f g : α → Except Fault β} (h : Agree x y)
    (hnext : ∀ a, Agree (f a) (g a)) : Agree (x >>= f) (y >>= g) := by
  intro b c hb hc
  cases x with
  | error fault => cases hb
  | ok a =>
    cases y with
    | error fault => cases hc
    | ok a' =>
      obtain rfl := h a a' rfl rfl
      exact hnext a b c hb hc

section
variable (d : Disk) {p q : String}

theorem readFile_agrees (h : Disk.partsOf p = Disk.partsOf q) :
    Agree (readFile d p) (readFile d q) := by
  intro a b ha hb
  unfold readFile at ha hb
  cases hp : d.read? p with
  | none => simp [hp] at ha
  | some content =>
    cases hq : d.read? q with
    | none => simp [hq] at hb
    | some other =>
      obtain rfl : content = a := by simpa [hp] using ha
      obtain rfl : other = b := by simpa [hq] using hb
      exact Disk.eq_of_read?_of_partsOf h hp hq

theorem parsed_agrees (parse : Bytes → Option α) (p q : String) (file : Bytes) :
    Agree (parsed parse p file) (parsed parse q file) := by
  intro a b ha hb
  unfold parsed at ha hb
  cases hread : parse file with
  | none => simp [hread] at ha
  | some x =>
    rw [hread] at ha hb
    exact Except.ok.inj (ha.symm.trans hb)

theorem load_agrees (parse : Bytes → Option α) (h : Disk.partsOf p = Disk.partsOf q) :
    Agree (load parse d p) (load parse d q) :=
  (readFile_agrees d h).bind fun file => parsed_agrees parse p q file

theorem mapM_agrees (parse : Bytes → Option α) (p q : String) (files : List Bytes) :
    Agree (files.mapM (parsed parse p)) (files.mapM (parsed parse q)) := by
  induction files with
  | nil => exact .refl _
  | cons file files ih =>
    rw [List.mapM_cons, List.mapM_cons]
    exact (parsed_agrees parse p q file).bind fun x => ih.bind fun rest => .refl _

theorem loadFolder_agrees (parse : Bytes → Option (List α)) (h : Disk.partsOf p = Disk.partsOf q) :
    Agree (loadFolder parse d p) (loadFolder parse d q) := by
  unfold loadFolder
  rw [Disk.filesIn?_of_partsOf h d]
  cases d.filesIn? q with
  | none =>
    intro a b ha hb
    cases ha
  | some files => exact (mapM_agrees parse p q files).bind fun found => .refl _

theorem ifSet_agrees {read : String → Except Fault (List α)} {path other : Option String}
    (hread : ∀ p q, Disk.partsOf p = Disk.partsOf q → Agree (read p) (read q))
    (h : path.map Disk.partsOf = other.map Disk.partsOf) :
    Agree (ifSet read path) (ifSet read other) := by
  cases path with
  | none =>
    cases other with
    | none => exact .refl _
    | some q => cases h
  | some p =>
    cases other with
    | none => cases h
    | some q => exact hread p q (Option.some.inj h)

theorem identity_agrees (lib : Readers) {o o' : TransportOptions}
    (hcert : o.clientCert.map Disk.partsOf = o'.clientCert.map Disk.partsOf)
    (hkey : o.clientKey.map Disk.partsOf = o'.clientKey.map Disk.partsOf) :
    Agree (identity lib d o) (identity lib d o') := by
  unfold identity
  generalize o.clientCert = cert, o'.clientCert = cert' at hcert ⊢
  generalize o.clientKey = key, o'.clientKey = key' at hkey ⊢
  cases cert with
  | none =>
    obtain rfl : cert' = none := by simpa using hcert.symm
    cases key with
    | none =>
      obtain rfl : key' = none := by simpa using hkey.symm
      exact .refl _
    | some k =>
      intro a b ha hb
      cases ha
  | some c =>
    cases key with
    | none =>
      intro a b ha hb
      cases ha
    | some k =>
      obtain ⟨c', rfl, hc⟩ := Option.map_eq_some_iff.1 hcert.symm
      obtain ⟨k', rfl, hk⟩ := Option.map_eq_some_iff.1 hkey.symm
      exact (load_agrees d lib.certificates? hc.symm).bind fun chain =>
        (load_agrees d lib.privateKey? hk.symm).bind fun key => .refl _

/-- Settings that are the same never give different agents, though one spelling of a path may fail
where another does not. -/
theorem build_agrees (lib : Readers) {s s' : Settings} (h : s.Same s') :
    Agree (build lib d s) (build lib d s') := by
  have hproxy : proxy? lib s = proxy? lib s' := by
    unfold proxy?
    rw [h.proxy]
  have hroots : Agree (roots lib d s.options) (roots lib d s'.options) :=
    (ifSet_agrees (fun _ _ hparts => load_agrees d _ hparts) h.caInfo).bind fun single =>
      (ifSet_agrees (fun _ _ hparts => loadFolder_agrees d _ hparts) h.caPath).bind
        fun folder => .refl _
  unfold build
  rw [hproxy, h.timeout, h.verifyPeer]
  exact (Agree.refl _).bind fun proxy => hroots.bind fun roots =>
    (identity_agrees d lib h.clientCert h.clientKey).bind fun identity => .refl _

/-- No path of a certificate or of a key ends as that of a folder. -/
structure Settings.NamesFiles (s : Settings) : Prop where
  caInfo : ∀ path, s.options.caInfo = some path → Disk.endsAsFolder path = false
  clientCert : ∀ path, s.options.clientCert = some path → Disk.endsAsFolder path = false
  clientKey : ∀ path, s.options.clientKey = some path → Disk.endsAsFolder path = false

/-- What is wrong with settings that name files is wrong with all that are the same. -/
theorem Misconfigured.of_same {lib : Readers} {s s' : Settings} (h : s.Same s')
    (hfiles : s'.NamesFiles) (hbad : Misconfigured lib d s') : Misconfigured lib d s := by
  have hother {path path' : Option String} (hparts : path.map Disk.partsOf = path'.map Disk.partsOf)
      {q : String} (hq : path' = some q) : ∃ p, path = some p ∧ Disk.partsOf p = Disk.partsOf q := by
    rw [hq] at hparts
    exact Option.map_eq_some_iff.1 hparts
  cases hbad with
  | badProxy hset hbad => exact .badProxy (h.proxy ▸ hset) (h.proxy ▸ hbad)
  | caInfo hset hbad =>
    obtain ⟨p, hp, hparts⟩ := hother h.caInfo hset
    exact .caInfo hp fun file hread =>
      hbad file (Disk.read?_of_partsOf hparts (hfiles.caInfo _ hset) hread)
  | caPath hset hbad =>
    obtain ⟨p, hp, hparts⟩ := hother h.caPath hset
    exact .caPath hp fun files hread => hbad files (Disk.filesIn?_of_partsOf hparts d ▸ hread)
  | clientCert hset hbad =>
    obtain ⟨p, hp, hparts⟩ := hother h.clientCert hset
    exact .clientCert hp fun file hread =>
      hbad file (Disk.read?_of_partsOf hparts (hfiles.clientCert _ hset) hread)
  | clientKey hset hbad =>
    obtain ⟨p, hp, hparts⟩ := hother h.clientKey hset
    exact .clientKey hp fun file hread =>
      hbad file (Disk.read?_of_partsOf hparts (hfiles.clientKey _ hset) hread)
  | halfIdentity hhalf =>
    have hcert := congrArg Option.isSome h.clientCert
    have hkey := congrArg Option.isSome h.clientKey
    rw [Option.isSome_map, Option.isSome_map] at hcert hkey
    exact .halfIdentity (by rw [hcert, hkey]; exact hhalf)

/-- Settings that name files give the agent that others give that are the same. -/
theorem build_of_same {lib : Readers} {s s' : Settings} (h : s.Same s') (hfiles : s'.NamesFiles)
    {a : Agent} (ha : build lib d s = .ok a) : build lib d s' = .ok a := by
  cases hb : build lib d s' with
  | error f =>
    have hbad := Misconfigured.of_same d h hfiles ((build_fails_iff lib d s').1 ⟨f, hb⟩)
    obtain ⟨f', hf⟩ := (build_fails_iff lib d s).2 hbad
    cases ha.symm.trans hf
  | ok b => rw [build_agrees d lib h a b ha hb]

end

end AppBackend.Network
