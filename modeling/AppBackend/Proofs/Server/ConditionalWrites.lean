import AppBackend.Proofs.Server.ConditionalRequests

/-!
# Conditional writes

Calls and operations of any clients, one after the other, on one server. A write may ask for etags.
An etag names what an entry was at one moment: it is made by one call, it stands at one place, and
the write that finds it there ends it. Main statement: `conditional_writes_take_effect_once`, of all
writes that ask for the same etags at most one takes effect.
-/

namespace AppBackend.Server

/-! ### Etags in a store -/

def Store.etag? (s : Store) (kind : Kind) (e bucket key : String) : Option String :=
  (s.entry? kind bucket key).bind fun fs => etagOf fs e

theorem Store.SameIn.etag? {s s' : Store} {kind : Kind} (h : s.SameIn s' kind)
    (e bucket key : String) : s'.etag? kind e bucket key = s.etag? kind e bucket key := by
  rw [Store.etag?, h.entry?, Store.etag?]

/-- A call leaves an etag as it is everywhere but at one place, and there it goes or is new. -/
theorem Changes.etag? {s s' : Store} {f : Fresh} {c : Call} (h : Changes s f c s') {kind : Kind}
    {e : String} (he : e ∈ kind.etagKeys) :
    ∃ bucket key, ∀ b k, s'.etag? kind e b k = s.etag? kind e b k ∨
      ((b = bucket ∧ k = key) ∧
        (s'.etag? kind e b k = none ∨ ∃ x ∈ f.names, s'.etag? kind e b k = some x)) := by
  have hother {other : Kind} {bucket key : String} {new : Option Json.Fields}
      (hedit : s.EditedAt other bucket key new s') (hne : kind ≠ other) (b k : String) :
      s'.etag? kind e b k = s.etag? kind e b k := (hedit.others kind hne).etag? e b k
  cases h with
  | kept same => exact ⟨"", "", fun b k => Or.inl ((same kind).etag? e b k)⟩
  | @made kind' bucket key _ entry =>
    obtain ⟨fs, hedit, hnew⟩ := entry
    refine ⟨bucket, key, fun b k => ?_⟩
    by_cases hk : kind = kind'
    · subst hk
      by_cases hplace : bucket = b ∧ key = k
      · obtain ⟨x, hx, hfs⟩ := hnew e he
        refine Or.inr ⟨⟨hplace.1.symm, hplace.2.symm⟩, Or.inr ⟨x, hx, ?_⟩⟩
        rw [Store.etag?, hedit.entries, if_pos hplace]
        exact hfs
      · rw [Store.etag?, hedit.entries, if_neg hplace]
        exact Or.inl rfl
    · exact Or.inl (hother hedit hk b k)
  | @written kind' bucket key entry =>
    obtain ⟨fs, new, hfound, -, hrenewed, hedit⟩ := entry
    refine ⟨bucket, key, fun b k => ?_⟩
    by_cases hk : kind = kind'
    · subst hk
      by_cases hplace : bucket = b ∧ key = k
      · have hafter : s'.etag? kind e b k = new.bind fun gs => etagOf gs e := by
          rw [Store.etag?, hedit.entries, if_pos hplace]
        cases hrenewed with
        | gone => exact Or.inr ⟨⟨hplace.1.symm, hplace.2.symm⟩, Or.inl hafter⟩
        | @anew gs e₀ _ hnew hothers =>
          by_cases he₀ : e = e₀
          · subst he₀
            exact Or.inr ⟨⟨hplace.1.symm, hplace.2.symm⟩,
              Or.inr ⟨f.first, List.mem_cons_self .., hafter.trans hnew⟩⟩
          · refine Or.inl ?_
            rw [hafter, Store.etag?, ← hplace.1, ← hplace.2, hfound]
            exact hothers e he he₀
      · rw [Store.etag?, hedit.entries, if_neg hplace]
        exact Or.inl rfl
    · exact Or.inl (hother hedit hk b k)

/-! ### Names that never repeat -/

def NeverRepeats (fresh : Nat → Fresh) : Prop :=
  ∀ m n x, x ∈ (fresh m).names → x ∈ (fresh n).names → m = n

/-- A name that one of the first `n` calls found new. -/
def NamedBefore (fresh : Nat → Fresh) (n : Nat) (x : String) : Prop :=
  ∃ m < n, x ∈ (fresh m).names

section
variable {fresh : Nat → Fresh} {b : Backend} {kind : Kind} {e x : String}

theorem NamedBefore.mono {m n : Nat} (h : NamedBefore fresh m x) (hmn : m ≤ n) :
    NamedBefore fresh n x := by
  obtain ⟨k, hk, hx⟩ := h
  exact ⟨k, Nat.lt_of_lt_of_le hk hmn, hx⟩

theorem NamedBefore.succ {n : Nat} (h : NamedBefore fresh n x) : NamedBefore fresh (n + 1) x :=
  h.mono (Nat.le_succ n)

theorem NamedBefore.not_new {n : Nat} (hfresh : NeverRepeats fresh) (h : NamedBefore fresh n x) :
    x ∉ (fresh n).names := by
  obtain ⟨m, hm, hx⟩ := h
  intro hn
  have := hfresh m n x hx hn
  omega

/-- Every etag was made by an earlier call, and stands at one place. -/
structure Sound (fresh : Nat → Fresh) (b : Backend) : Prop where
  named : ∀ {kind e}, e ∈ kind.etagKeys → ∀ {bucket key x},
    b.store.etag? kind e bucket key = some x → NamedBefore fresh b.calls x
  apart : ∀ {kind e}, e ∈ kind.etagKeys → ∀ {bucket key bucket' key' x},
    b.store.etag? kind e bucket key = some x → b.store.etag? kind e bucket' key' = some x →
    bucket = bucket' ∧ key = key'

/-- An etag that was made once and stands nowhere any more. -/
def Spent (fresh : Nat → Fresh) (b : Backend) (kind : Kind) (e x : String) : Prop :=
  NamedBefore fresh b.calls x ∧ ∀ bucket key, b.store.etag? kind e bucket key ≠ some x

theorem sound_empty : Sound fresh {} where
  named := by
    intro kind e _ bucket key x h
    cases kind <;> cases h
  apart := by
    intro kind e _ bucket key bucket' key' x h
    cases kind <;> cases h

theorem Sound.answer (hfresh : NeverRepeats fresh) (h : Sound fresh b) (c : Call) :
    Sound fresh (b.answer fresh c).2 where
  named := by
    intro kind e he bucket key x hx
    obtain ⟨b₀, k₀, hchange⟩ := (changes_answer b.store (fresh b.calls) c).etag? he
    obtain hsame | ⟨-, hgone | ⟨y, hy, hnew⟩⟩ := hchange bucket key
    · exact (h.named he (hsame.symm.trans hx)).succ
    · cases hgone.symm.trans hx
    · obtain rfl : y = x := Option.some.inj (hnew.symm.trans hx)
      exact ⟨b.calls, Nat.lt_succ_self _, hy⟩
  apart := by
    intro kind e he bucket key bucket' key' x hx hx'
    obtain ⟨b₀, k₀, hchange⟩ := (changes_answer b.store (fresh b.calls) c).etag? he
    -- a value of before is never one that the call found new
    have hclash {b' k' : String} (hsame : b.store.etag? kind e b' k' = some x) :
        x ∉ (fresh b.calls).names := (h.named he hsame).not_new hfresh
    obtain hsame | ⟨hplace, hgone | ⟨y, hy, hnew⟩⟩ := hchange bucket key <;>
      obtain hsame' | ⟨hplace', hgone' | ⟨y', hy', hnew'⟩⟩ := hchange bucket' key'
    · exact h.apart he (hsame.symm.trans hx) (hsame'.symm.trans hx')
    · cases hgone'.symm.trans hx'
    · obtain rfl : y' = x := Option.some.inj (hnew'.symm.trans hx')
      exact absurd hy' (hclash (hsame.symm.trans hx))
    · cases hgone.symm.trans hx
    · cases hgone.symm.trans hx
    · cases hgone.symm.trans hx
    · obtain rfl : y = x := Option.some.inj (hnew.symm.trans hx)
      exact absurd hy (hclash (hsame'.symm.trans hx'))
    · cases hgone'.symm.trans hx'
    · exact ⟨hplace.1.trans hplace'.1.symm, hplace.2.trans hplace'.2.symm⟩

theorem Spent.answer (hfresh : NeverRepeats fresh) (he : e ∈ kind.etagKeys)
    (h : Spent fresh b kind e x) (c : Call) : Spent fresh (b.answer fresh c).2 kind e x := by
  refine ⟨h.1.succ, fun bucket key hx => ?_⟩
  obtain ⟨b₀, k₀, hchange⟩ := (changes_answer b.store (fresh b.calls) c).etag? he
  obtain hsame | ⟨-, hgone | ⟨y, hy, hnew⟩⟩ := hchange bucket key
  · exact h.2 bucket key (hsame.symm.trans hx)
  · cases hgone.symm.trans hx
  · obtain rfl : y = x := Option.some.inj (hnew.symm.trans hx)
    exact h.1.not_new hfresh hy

/-! ### A write ends an etag that it asks for -/

theorem Asks.exists {c : Call} {expected : List String} (h : Asks c kind expected)
    (he : e ∈ kind.etagKeys) : ∃ x, c.param? e = some x := by
  have hmem : c.param? e ∈ expected.map some := h ▸ List.mem_map_of_mem he
  obtain ⟨x, -, hx⟩ := List.mem_map.1 hmem
  exact ⟨x, hx.symm⟩

theorem Asks.param?_eq {c c' : Call} {expected : List String} (h : Asks c kind expected)
    (h' : Asks c' kind expected) (he : e ∈ kind.etagKeys) : c.param? e = c'.param? e :=
  List.map_inj_left.1 (h.trans h'.symm) e he

/-- A write finds the etag that it asks for at its entry. -/
theorem Written.etag?_eq {s s' : Store} {f : Fresh} {c : Call} {bucket key : String}
    (h : Written s f c kind bucket key s') (he : e ∈ kind.etagKeys) (hx : c.param? e = some x) :
    s.etag? kind e bucket key = some x := by
  obtain ⟨fs, new, hfound, hasked, -, -⟩ := h
  rw [Store.etag?, hfound]
  exact eq_of_checkEtag (hasked e he) hx

theorem exists_new_of_renewed {f : Fresh} {fs : Json.Fields} {new : Option Json.Fields}
    (h : Renewed f kind fs new) :
    ∃ e ∈ kind.etagKeys, ∀ x, (new.bind fun gs => etagOf gs e) = some x → x ∈ f.names := by
  cases h with
  | gone =>
    cases kind with
    | object => exact ⟨Reserved.etag, List.mem_cons_self .., by simp⟩
    | file => exact ⟨Files.metaEtag, List.mem_cons_self .., by simp⟩
  | @anew gs e he hnew _ =>
    refine ⟨e, he, fun x hx => ?_⟩
    obtain rfl : f.first = x := Option.some.inj (hnew.symm.trans hx)
    exact List.mem_cons_self ..

/-- No call that asks for these etags can write any more. -/
def SomeSpent (fresh : Nat → Fresh) (b : Backend) (kind : Kind) (expected : List String) : Prop :=
  ∃ e ∈ kind.etagKeys, ∃ x, Spent fresh b kind e x ∧
    ∀ c, Asks c kind expected → c.param? e = some x

theorem SomeSpent.answer (hfresh : NeverRepeats fresh) {expected : List String}
    (h : SomeSpent fresh b kind expected) (c : Call) :
    SomeSpent fresh (b.answer fresh c).2 kind expected := by
  obtain ⟨e, he, x, hspent, hasked⟩ := h
  exact ⟨e, he, x, hspent.answer hfresh he c, hasked⟩

theorem SomeSpent.not_written {expected : List String} (h : SomeSpent fresh b kind expected)
    {c : Call} (ha : Asks c kind expected) {f : Fresh} {bucket key : String} {s' : Store} :
    ¬ Written b.store f c kind bucket key s' := by
  intro hw
  obtain ⟨e, he, x, hspent, hasked⟩ := h
  exact hspent.2 bucket key (hw.etag?_eq he (hasked c ha))

theorem someSpent_of_written (hfresh : NeverRepeats fresh) (hs : Sound fresh b) {c : Call}
    {expected : List String} {bucket key : String} (ha : Asks c kind expected)
    (hw : Written b.store (fresh b.calls) c kind bucket key (b.answer fresh c).2.store) :
    SomeSpent fresh (b.answer fresh c).2 kind expected := by
  have hw' := hw
  obtain ⟨fs, new, hfound, -, hrenewed, hedit⟩ := hw'
  obtain ⟨e, he, hnew⟩ := exists_new_of_renewed hrenewed
  obtain ⟨x, hx⟩ := ha.exists he
  have hbefore := hw.etag?_eq he hx
  have hnamed := hs.named he hbefore
  refine ⟨e, he, x, ⟨hnamed.succ, fun b' k' hafter => ?_⟩, fun c' ha' => ?_⟩
  · rw [Store.etag?, hedit.entries] at hafter
    split at hafter
    · exact hnamed.not_new hfresh (hnew x hafter)
    · rename_i hplace
      exact hplace (hs.apart he hbefore hafter)
  · rw [ha'.param?_eq ha he, hx]

end

/-! ### Runs -/

/-- A call by anyone, or an operation of any client with its files and its clock. -/
inductive Step where
  | call (c : Call)
  | operation (service : Service Unit) (disk : Disk) (now : Int) (o : Operation)

namespace Step

variable {fresh : Nat → Fresh} {b : Backend} {kind : Kind} {expected : List String}

def run (fresh : Nat → Fresh) (b : Backend) : Step → Backend
  | call c => (b.answer fresh c).2
  | operation service disk now o =>
    (o.run (Backend.engine fresh) now ⟨service, ⟨disk, b⟩⟩).2.site.backend

/-- A step that takes effect though it asks for etags: a call to write an entry that succeeds, or
an operation given etags that are not empty after which the entries are not what they were. -/
def Writes (fresh : Nat → Fresh) (kind : Kind) (expected : List String) (b : Backend) :
    Step → Prop
  | call c => c.isWrite ∧ Asks c kind expected ∧
      (∃ bucket key, c.entry? = some (kind, bucket, key)) ∧
      (200 ≤ (b.answer fresh c).1.status ∧ (b.answer fresh c).1.status < 300)
  | operation service disk now o => o.condition? = some (kind, expected) ∧
      (∀ e ∈ expected, e ≠ "") ∧
      (∀ t ∈ service.credentials.endpoint :: service.credentials.tenant :: o.spelled,
        Unmarked t.toList) ∧
      ¬ b.store.SameIn (run fresh b (operation service disk now o)).store kind

theorem run_cases (fresh : Nat → Fresh) (b : Backend) (s : Step) :
    s.run fresh b = b ∨ ∃ c, s.run fresh b = (b.answer fresh c).2 := by
  cases s with
  | call c => exact Or.inr ⟨c, rfl⟩
  | operation service disk now o =>
    obtain h | ⟨-, h | ⟨-, c, -, -, -, h⟩⟩ := oneCall_operation fresh service disk b now o
    · exact Or.inl h
    · exact Or.inl h
    · exact Or.inr ⟨c, h⟩

/-- A step that takes effect has written an entry by a call that asks for its etags. -/
theorem written_of_writes {s : Step} (h : s.Writes fresh kind expected b) :
    ∃ c bucket key, s.run fresh b = (b.answer fresh c).2 ∧ Asks c kind expected ∧
      Written b.store (fresh b.calls) c kind bucket key (b.answer fresh c).2.store := by
  cases s with
  | call c =>
    obtain ⟨hw, ha, ⟨bucket, key, hentry⟩, -, hok⟩ := h
    exact ⟨c, bucket, key, rfl, ha, written_of_success hw hentry hok⟩
  | operation service disk now o =>
    obtain ⟨hc, hne, hspelled, hchanged⟩ := h
    obtain h | ⟨hm, h | ⟨t, c, hcall, hurl, hmethod, h⟩⟩ :=
      oneCall_operation fresh service disk b now o
    · rw [run, h] at hchanged
      exact absurd (sameIn_self b.store kind) hchanged
    · rw [run, h] at hchanged
      exact absurd (sameIn_self b.store kind) hchanged
    rw [run, h] at hchanged
    have hchanged : ¬ b.store.SameIn (answer b.store (fresh b.calls) c).2 kind := hchanged
    cases hroute : Route.ofPath? c.path with
    | none =>
      rw [answer_of_unknown hroute] at hchanged
      exact absurd (sameIn_self b.store kind) hchanged
    | some r =>
      obtain ⟨hw, ha⟩ := asks_of_sent hc hne hspelled hm hcall hurl hmethod hroute
      obtain ⟨bucket, key, hwritten⟩ := written_of_changed hw hchanged
      exact ⟨c, bucket, key, h, ha, hwritten⟩

theorem sound_run (hfresh : NeverRepeats fresh) (h : Sound fresh b) (s : Step) :
    Sound fresh (s.run fresh b) := by
  obtain hs | ⟨c, hs⟩ := s.run_cases fresh b
  · rw [hs]
    exact h
  · rw [hs]
    exact h.answer hfresh c

theorem someSpent_run (hfresh : NeverRepeats fresh) (h : SomeSpent fresh b kind expected)
    (s : Step) : SomeSpent fresh (s.run fresh b) kind expected := by
  obtain hs | ⟨c, hs⟩ := s.run_cases fresh b
  · rw [hs]
    exact h
  · rw [hs]
    exact h.answer hfresh c

theorem someSpent_of_writes (hfresh : NeverRepeats fresh) (hs : Sound fresh b) {s : Step}
    (h : s.Writes fresh kind expected b) : SomeSpent fresh (s.run fresh b) kind expected := by
  obtain ⟨c, bucket, key, hrun, ha, hw⟩ := written_of_writes h
  rw [hrun]
  exact someSpent_of_written hfresh hs ha hw

theorem not_writes_of_someSpent (h : SomeSpent fresh b kind expected) (s : Step) :
    ¬ s.Writes fresh kind expected b := by
  intro hw
  obtain ⟨c, bucket, key, -, ha, hwritten⟩ := written_of_writes hw
  exact h.not_written ha hwritten

end Step

/-- Each step of a run with the server that it finds. -/
def moments (fresh : Nat → Fresh) (b : Backend) : List Step → List (Backend × Step)
  | [] => []
  | s :: ss => (b, s) :: moments fresh (s.run fresh b) ss

section
variable {fresh : Nat → Fresh} {kind : Kind} {expected : List String}

theorem not_writes_of_mem_moments (hfresh : NeverRepeats fresh) {b : Backend}
    (h : SomeSpent fresh b kind expected) (steps : List Step) :
    ∀ m ∈ moments fresh b steps, ¬ m.2.Writes fresh kind expected m.1 := by
  induction steps generalizing b with
  | nil => simp [moments]
  | cons s steps ih =>
    intro m hm
    rcases List.mem_cons.1 hm with rfl | hm
    · exact s.not_writes_of_someSpent h
    · exact ih (s.someSpent_run hfresh h) m hm

theorem pairwise_moments (hfresh : NeverRepeats fresh) {b : Backend} (hs : Sound fresh b)
    (steps : List Step) :
    (moments fresh b steps).Pairwise fun m n =>
      ¬ (m.2.Writes fresh kind expected m.1 ∧ n.2.Writes fresh kind expected n.1) := by
  induction steps generalizing b with
  | nil => exact List.Pairwise.nil
  | cons s steps ih =>
    refine List.pairwise_cons.2 ⟨?_, ih (s.sound_run hfresh hs)⟩
    rintro n hn ⟨hfirst, hlater⟩
    exact not_writes_of_mem_moments hfresh (Step.someSpent_of_writes hfresh hs hfirst) steps n hn
      hlater

end

/-- Of all steps of a run that ask for the same etag of an object, or for the same two etags of a
file, at most one takes effect, whatever comes before, between and after them. -/
theorem conditional_writes_take_effect_once {fresh : Nat → Fresh} (hfresh : NeverRepeats fresh)
    (steps : List Step) (kind : Kind) (expected : List String) :
    (moments fresh {} steps).Pairwise fun m n =>
      ¬ (m.2.Writes fresh kind expected m.1 ∧ n.2.Writes fresh kind expected n.1) :=
  pairwise_moments hfresh sound_empty steps

/-- Names that tell which call they are from. -/
def numbered (n : Nat) : Fresh :=
  ⟨⟨0, 0⟩, String.ofList ('i' :: Numeral.write n), String.ofList ('e' :: Numeral.write n)⟩

theorem neverRepeats_numbered : NeverRepeats numbered := by
  have hinj {m n : Nat} {c d : Char}
      (h : String.ofList (c :: Numeral.write m) = String.ofList (d :: Numeral.write n)) :
      m = n := by
    have hlist := String.ofList_injective h
    rw [← Numeral.value_write m, (List.cons.inj hlist).2, Numeral.value_write]
  intro m n x hm hn
  simp only [Fresh.names, numbered, List.mem_cons, List.not_mem_nil, or_false] at hm hn
  rcases hm with hm | hm <;> rcases hn with hn | hn <;> exact hinj (hm.symm.trans hn)

/-- An object is made and replaced, and a client that asks for its etag of before changes nothing.
A file is made and marked as deleted, and a client that asks for its etags of before changes
nothing. -/
theorem conditional_writes_take_effect_once_of_race :
    let service : Service Unit :=
      ⟨⟨"http://mock", "tenant", "app-id", "app-key", ""⟩, {}, {}, .new 1 1, 60⟩
    let headers : Pairs := [("X-Application-Id", "app-id"), ("X-Application-Key", "app-key"),
      ("Content-Type", "application/json")]
    let body := Utf8.ofString "\x7b\x7d"
    let makeObject : Call := ⟨"POST", "/1/tenant/objects/t", "", headers, body⟩
    let replaceObject : Call := ⟨"PUT", "/1/tenant/objects/t/i0", "etag=e0", headers, body⟩
    let update := Step.operation service {} 0
      (.updateObject ⟨"t", 5⟩ "i0" "e0" [("a", .int 1)] none)
    let objects := (Step.call replaceObject).run numbered ((Step.call makeObject).run numbered {})
    let makeFile : Call := ⟨"POST", "/1/tenant/files/t/f", "", headers, body⟩
    let markFile : Call :=
      ⟨"DELETE", "/1/tenant/files/t/f", "metaETag=i0&fileETag=e0&deleteMark=1", headers, []⟩
    let upload := Step.operation service ⟨[(["p"], .file [1])], none⟩ 0
      (.uploadFile ⟨"t", 5⟩ "f" "p" "text/plain" "i0" "e0")
    let files := (Step.call markFile).run numbered ((Step.call makeFile).run numbered {})
    objects.store.SameIn (update.run numbered objects).store .object ∧
      files.store.SameIn (upload.run numbered files).store .file := by
  intro service headers body makeObject replaceObject update objects makeFile markFile upload files
  have hspelled : ∀ t ∈ ["http://mock", "tenant", "t", "i0"], Unmarked t.toList := by decide
  constructor
  · have hpair := conditional_writes_take_effect_once neverRepeats_numbered
      [.call makeObject, .call replaceObject, update] .object ["e0"]
    have hreplaced : (Step.call replaceObject).Writes numbered .object ["e0"]
        ((Step.call makeObject).run numbered {}) :=
      ⟨Or.inl rfl, by decide +kernel, ⟨"t", "i0", by decide +kernel⟩, by decide +kernel⟩
    have hnot := (List.pairwise_cons.1 (List.pairwise_cons.1 hpair).2).1 (objects, update)
      (List.mem_cons_self ..)
    exact Classical.not_not.1 fun h => hnot ⟨hreplaced, rfl, by decide, hspelled, h⟩
  · have hpair := conditional_writes_take_effect_once neverRepeats_numbered
      [.call makeFile, .call markFile, upload] .file ["i0", "e0"]
    have hmarked : (Step.call markFile).Writes numbered .file ["i0", "e0"]
        ((Step.call makeFile).run numbered {}) :=
      ⟨Or.inr rfl, by decide +kernel, ⟨"t", "f", by decide +kernel⟩, by decide +kernel⟩
    have hnot := (List.pairwise_cons.1 (List.pairwise_cons.1 hpair).2).1 (files, upload)
      (List.mem_cons_self ..)
    exact Classical.not_not.1 fun h => hnot ⟨hmarked, rfl, by decide,
      fun t ht => hspelled t (List.mem_of_mem_take (i := 3) ht), h⟩

theorem changes_of_etags {fresh : Nat → Fresh} {b : Backend} {steps : List Step} {kind : Kind}
    (e bucket : String) (keys : List String)
    (h : ∀ m ∈ moments fresh b steps, ∃ key ∈ keys,
      (m.2.run fresh m.1).store.etag? kind e bucket key ≠ m.1.store.etag? kind e bucket key) :
    ∀ m ∈ moments fresh b steps, ¬ m.1.store.SameIn (m.2.run fresh m.1).store kind := by
  intro m hm hsame
  obtain ⟨key, -, hne⟩ := h m hm
  exact hne (hsame.etag? e bucket key)

/-- What the conditions are for: an object without an id is made anew each time, a number sign in an
id cuts the etag off, and an empty etag is not sent. -/
theorem writes_take_effect_twice :
    let service : Service Unit :=
      ⟨⟨"http://mock", "tenant", "app-id", "app-key", ""⟩, {}, {}, .new 1 1, 60⟩
    let disk : Disk := ⟨[(["p"], .file [1])], none⟩
    let save := Step.operation service disk 0 (.saveObject ⟨"t", 5⟩ { etag := "e0" } false)
    let update := Step.operation service disk 0
      (.updateObject ⟨"t", 5⟩ "i0#" "e0" [("a", .int 1)] none)
    let make := Step.operation service disk 0
      (.uploadNewFile ⟨"t", 5⟩ "f" "p" "text/plain" "" false)
    let upload := Step.operation service disk 0 (.uploadFileOf ⟨"t", 5⟩ { filename := "f" } "p")
    NeverRepeats numbered ∧
      (∀ m ∈ moments numbered {} [save, save, update, update],
        ¬ m.1.store.SameIn (m.2.run numbered m.1).store .object) ∧
      (∀ m ∈ moments numbered {} [make, upload, upload],
        ¬ m.1.store.SameIn (m.2.run numbered m.1).store .file) :=
  ⟨neverRepeats_numbered,
    changes_of_etags Reserved.etag "t" ["i0", "i1"] (by decide +kernel),
    changes_of_etags Files.fileEtag "t" ["f"] (by decide +kernel)⟩

end AppBackend.Server
