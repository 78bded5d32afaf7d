import AppBackend.Proofs.Client.Operation

/-!
# Session histories

A run of operations on one client, the clock never going back. The history of a run says which
sessions were installed and removed, and which client each operation found. A stale session may be
cleared by one operation and left in place by another. Main statement:
`observations_follow_last_session`, what is observed is always the session installed last, as long
as it has a token and its expiry is to come.
-/

namespace AppBackend

/-! ### Runs -/

inductive SessionEvent (ε ω : Type) where
  /-- An operation begins; the clock, and the client that it finds. -/
  | reached (now : Int) (c : Client ε ω)
  | installed (s : Session)
  | removed

mutual

/-- One operation. The body of a call may do others before it goes on by itself. -/
inductive Deed (ε ω : Type) where
  | setSession (s : Session)
  | clearSession
  | setOptions (options : TransportOptions)
  | login (username email password : String) (timeout : Int)
  | logout (timeout : Int)
  | importLogin (text : String)
  /-- Any of the questions about the login. -/
  | look
  | operate (o : Operation)
  | request (earlier : Option Draft) (steps : List Draft.Step) (job : Job) (timeout : Int)
  | call (earlier : Option Draft) (steps : List Draft.Step) (inner : Deeds ε ω)
    (own : Request → ε → Site ω → ε × Site ω)

/-- Operations one after the other, each with its reading of the clock. -/
inductive Deeds (ε ω : Type) where
  | nil
  | cons (now : Int) (first : Deed ε ω) (rest : Deeds ε ω)

end

variable {ε ω : Type}

/-- The session that a login brings if it succeeds: what the reply says. -/
def Client.loginSession? (e : Engine ε ω) (now : Int) (username email password : String)
    (timeout : Int) (c : Client ε ω) : Option Session :=
  match (c.login e now username email password timeout).1,
    (c.request e now (loginSteps username email password) .plain timeout).1 with
  | .success _, .success r => (Login.ofObject? r.jsonObject).map Login.toSession
  | _, _ => none

/-- The session that an import brings if it succeeds: what the text says. -/
def Client.importSession? (now : Int) (text : String) (c : Client ε ω) : Option Session :=
  match (c.importLogin now text).1 with
  | .ok () => (Login.ofText? text).map Login.toSession
  | .error _ => none

def SessionEvent.ofInstalled : Option Session → List (SessionEvent ε ω)
  | some s => [.installed s]
  | none => []

mutual

def Deed.run (e : Engine ε ω) (now : Int) (c : Client ε ω) :
    Deed ε ω → List (SessionEvent ε ω) × Client ε ω
  | .setSession s => ([.installed s], c.setSession s)
  | .clearSession => ([.removed], c.clearSession)
  | .setOptions options => ([], c.setOptions options)
  | .login username email password timeout =>
    (SessionEvent.ofInstalled (c.loginSession? e now username email password timeout),
      (c.login e now username email password timeout).2)
  | .logout timeout => ([.removed], (c.logout e now timeout).2)
  | .importLogin text =>
    (SessionEvent.ofInstalled (c.importSession? now text), (c.importLogin now text).2)
  | .look => ([], c.refresh now)
  | .operate o => ([], (o.run e now c).2)
  | .request earlier steps job timeout =>
    ([], (c.send e ((earlier.getD (c.service.draft now)).applyAll steps) job timeout).2)
  | .call earlier steps inner own =>
    c.execute e ((earlier.getD (c.service.draft now)).applyAll steps) (fun _ => [])
      fun x r c =>
        let done := inner.run e c
        let (engine, site) := own r x.engine done.2.site
        (done.1, { x with engine }, { done.2 with site })

def Deeds.run (e : Engine ε ω) (c : Client ε ω) :
    Deeds ε ω → List (SessionEvent ε ω) × Client ε ω
  | .nil => ([], c)
  | .cons now first rest =>
    let r := first.run e now c
    let s := rest.run e r.2
    (.reached now c :: r.1 ++ s.1, s.2)

end

mutual

/-- The readings of the clock inside an operation, after its own. -/
def Deed.readings : Deed ε ω → List Int
  | .call _ _ inner _ => inner.readings
  | _ => []

def Deeds.readings : Deeds ε ω → List Int
  | .nil => []
  | .cons now first rest => now :: first.readings ++ rest.readings

end

/-! ### The session installed last -/

def SessionEvent.after (last : Option Session) : SessionEvent ε ω → Option Session
  | .reached _ _ => last
  | .installed s => some s
  | .removed => none

/-- The session installed last and not removed since, after a history that begins with `last`. -/
def standing (last : Option Session) (h : List (SessionEvent ε ω)) : Option Session :=
  h.foldl SessionEvent.after last

theorem standing_append (last : Option Session) (h k : List (SessionEvent ε ω)) :
    standing last (h ++ k) = standing (standing last h) k := List.foldl_append

/-- What can be seen of a session that may not be there. -/
def seen (last : Option Session) (now : Int) : Session :=
  match last with
  | some s => s.view now
  | none => {}

/-- From a time on, the client's session is seen as `last` is. -/
def Agrees (now : Int) (c : Client ε ω) (last : Option Session) : Prop :=
  ∀ later, now ≤ later → c.session later = seen last later

/-- Whatever an operation of the history finds, it is seen as the session installed last before. -/
def Faithful (last : Option Session) : List (SessionEvent ε ω) → Prop
  | [] => True
  | ev :: h => (∀ now c, ev = .reached now c → Agrees now c last) ∧ Faithful (ev.after last) h

theorem Faithful.append {last : Option Session} {h k : List (SessionEvent ε ω)}
    (hh : Faithful last h) (hk : Faithful (standing last h) k) : Faithful last (h ++ k) := by
  induction h generalizing last with
  | nil => exact hk
  | cons ev h ih => exact ⟨hh.1, ih hh.2 hk⟩

theorem Faithful.agrees {last : Option Session} {before after : List (SessionEvent ε ω)} {now : Int}
    {c : Client ε ω} (h : Faithful last (before ++ .reached now c :: after)) :
    Agrees now c (standing last before) := by
  induction before generalizing last with
  | nil => exact h.1 now c rfl
  | cons ev before ih => exact ih h.2

/-! ### What one operation does to the session -/

theorem Session.view_refresh_of_le {now later : Int} (hle : now ≤ later) (s : Session) :
    (s.refresh now).view later = s.view later := by
  unfold refresh
  split
  · rename_i h
    have hnow : s.isValid now = false := by
      simp only [isStale, Bool.and_eq_true] at h
      simp [isValid, h.2]
    rw [view_of_not_isValid (isValid_mono hle hnow)]
    simp [view, clear, isValid]
  · rfl

theorem Client.session_refresh {now later : Int} (hle : now ≤ later) (c : Client ε ω) :
    (c.refresh now).session later = c.session later :=
  Session.view_refresh_of_le hle c.service.session

/-- A login installs what the reply says, if it succeeds; a reply that has run out is cleared at
once. -/
theorem Client.session_login (e : Engine ε ω) (now : Int) (username email password : String)
    (timeout : Int) (c : Client ε ω) :
    (∃ s, c.loginSession? e now username email password timeout = some s ∧
      (c.login e now username email password timeout).2.service.session = s.refresh now) ∨
    (c.loginSession? e now username email password timeout = none ∧
      (∀ a, (c.login e now username email password timeout).1 ≠ .success a) ∧
      (c.login e now username email password timeout).2.service.session
        = c.service.session) := by
  have hkeep := Client.session_request e now (loginSteps username email password) .plain timeout c
  unfold loginSession?
  by_cases harg : (username = "" ∧ email = "") ∨ password = ""
  · rw [login_of_refused harg]
    exact Or.inr ⟨rfl, nofun, rfl⟩
  · rw [login_of_accepted harg]
    generalize c.request e now (loginSteps username email password) .plain timeout = r at hkeep ⊢
    obtain ⟨o, c'⟩ := r
    cases o with
    | rest error => exact Or.inr ⟨rfl, nofun, hkeep⟩
    | fatal f => exact Or.inr ⟨rfl, nofun, hkeep⟩
    | success r =>
      simp only [concludeLogin]
      cases hl : Login.ofObject? r.jsonObject with
      | none => exact Or.inr ⟨rfl, nofun, hkeep⟩
      | some l =>
        dsimp only
        rw [hl]
        exact Or.inl ⟨l.toSession, rfl, rfl⟩

theorem Client.session_importLogin (now : Int) (text : String) (c : Client ε ω) :
    (∃ s, c.importSession? now text = some s ∧
      (c.importLogin now text).2.service.session = s) ∨
    (c.importSession? now text = none ∧ (c.importLogin now text).1 ≠ .ok () ∧
      (c.importLogin now text).2.service.session = c.service.session) := by
  unfold importSession? importLogin
  cases hl : (Login.ofText? text).filter fun l => l.token != "" with
  | none => exact Or.inr ⟨rfl, by simp, rfl⟩
  | some l =>
    have htext : Login.ofText? text = some l := (Option.filter_eq_some_iff.1 hl).1
    cases he : Session.isExpired l.expiry now with
    | true => exact Or.inr ⟨by simp [he], by simp [he], by simp [he]⟩
    | false => exact Or.inl ⟨l.toSession, by simp [he, htext], by simp [he]; rfl⟩

theorem Client.session_logout (e : Engine ε ω) {now later : Int} (hle : now ≤ later) (timeout : Int)
    (c : Client ε ω) : (c.logout e now timeout).2.session later = {} := by
  cases hin : c.isLoggedIn now with
  | true =>
    rw [logout_of_isLoggedIn hin]
    show Session.view _ later = {}
    rw [concludeLogout, Client.session_send]
    simp [clearSession, setSession, Session.view, Session.isValid]
  | false =>
    have hrefresh : (c.refresh now).service.session.isValid now = false :=
      (c.isLoggedIn_refresh now).trans hin
    rw [logout_of_not_isLoggedIn hin]
    exact Session.view_of_not_isValid (Session.isValid_mono hle hrefresh)

/-! ### What a run keeps -/

/-- At any time after all these readings the client's session is seen as `last` is. -/
def Settled (past : List Int) (c : Client ε ω) (last : Option Session) : Prop :=
  ∀ later, (∀ r ∈ past, r ≤ later) → c.session later = seen last later

theorem Settled.of_session_eq {past : List Int} {c c' : Client ε ω} {last : Option Session}
    (h : Settled past c last) (hs : c'.service.session = c.service.session) :
    Settled past c' last := by
  intro later hlater
  show Session.view _ later = _
  rw [hs]
  exact h later hlater

theorem Settled.mono {past : List Int} {c : Client ε ω} {last : Option Session}
    (h : Settled past c last) (more : List Int) : Settled (past ++ more) c last :=
  fun later hlater => h later fun r hr => hlater r (List.mem_append_left _ hr)

theorem Settled.agrees {past : List Int} {c : Client ε ω} {last : Option Session} {now : Int}
    (h : Settled past c last) (hnow : ∀ r ∈ past, r ≤ now) : Agrees now c last :=
  fun later hle => h later fun r hr => Int.le_trans (hnow r hr) hle

mutual

theorem Deed.run_settled (e : Engine ε ω) (d : Deed ε ω) {past : List Int} {now : Int}
    {c : Client ε ω} {last : Option Session} (hnow : now ∈ past)
    (hclock : (past ++ d.readings).Pairwise (· ≤ ·)) (h : Settled past c last) :
    Faithful last (d.run e now c).1 ∧
      Settled (past ++ d.readings) (d.run e now c).2 (standing last (d.run e now c).1) := by
  match d, hclock with
  | .setSession s, _ => exact ⟨⟨by simp, trivial⟩, fun later _ => rfl⟩
  | .clearSession, _ =>
    refine ⟨⟨by simp, trivial⟩, fun later _ => ?_⟩
    simp [Deed.run, Client.clearSession, Client.setSession, Client.session, Session.view,
      Session.isValid, standing, SessionEvent.after, seen]
  | .setOptions options, _ => exact ⟨trivial, h.mono []⟩
  | .login username email password timeout, _ =>
    rw [Deed.run]
    rcases c.session_login e now username email password timeout with
      ⟨s, hs, hc⟩ | ⟨hs, -, hc⟩
    · rw [hs]
      refine ⟨⟨by simp, trivial⟩, fun later hlater => ?_⟩
      show Session.view _ later = s.view later
      rw [hc]
      exact Session.view_refresh_of_le (hlater now (List.mem_append_left _ hnow)) s
    · rw [hs]
      exact ⟨trivial, (h.of_session_eq hc).mono []⟩
  | .logout timeout, _ =>
    refine ⟨⟨by simp, trivial⟩, fun later hlater => ?_⟩
    exact c.session_logout e (hlater now (List.mem_append_left _ hnow)) timeout
  | .importLogin text, _ =>
    rw [Deed.run]
    rcases c.session_importLogin now text with ⟨s, hs, hc⟩ | ⟨hs, -, hc⟩
    · rw [hs]
      refine ⟨⟨by simp, trivial⟩, fun later hlater => ?_⟩
      show Session.view _ later = s.view later
      rw [hc]
    · rw [hs]
      exact ⟨trivial, (h.of_session_eq hc).mono []⟩
  | .look, _ =>
    refine ⟨trivial, fun later hlater => ?_⟩
    have hle : now ≤ later := hlater now (List.mem_append_left _ hnow)
    exact (c.session_refresh hle).trans (h.mono [] later hlater)
  | .operate o, _ => exact ⟨trivial, (h.of_session_eq (o.session_run e now c)).mono []⟩
  | .request earlier steps job timeout, _ =>
    exact ⟨trivial, (h.of_session_eq (Client.session_send ..)).mono []⟩
  | .call earlier steps inner own, hclock =>
    rw [Deed.run]
    cases hm : ((earlier.getD (c.service.draft now)).applyAll steps).missing? with
    | some f =>
      rw [Client.execute_of_missing hm]
      exact ⟨trivial, h.mono _⟩
    | none =>
      cases ha : c.service.pool.acquire? e.fresh with
      | none =>
        rw [Client.execute_of_exhausted hm ha]
        exact ⟨trivial, h.mono _⟩
      | some loan =>
        rw [Client.execute_of_loan hm ha]
        have hin := Deeds.run_settled e inner
          (c := { c with service := { c.service with pool := loan.2 } }) hclock h
        exact ⟨hin.1, hin.2.of_session_eq rfl⟩

theorem Deeds.run_settled (e : Engine ε ω) (ds : Deeds ε ω) {past : List Int} {c : Client ε ω}
    {last : Option Session} (hclock : (past ++ ds.readings).Pairwise (· ≤ ·))
    (h : Settled past c last) :
    Faithful last (ds.run e c).1 ∧
      Settled (past ++ ds.readings) (ds.run e c).2 (standing last (ds.run e c).1) := by
  match ds, hclock with
  | .nil, _ => exact ⟨trivial, h.mono []⟩
  | .cons now first rest, hclock =>
    -- the reading joins the past before the operation runs, its inner readings after
    have hsplit : past ++ (Deeds.cons now first rest).readings
        = past ++ [now] ++ first.readings ++ rest.readings := by
      simp [Deeds.readings]
    rw [hsplit] at hclock ⊢
    have hfirst := (List.pairwise_append.1 hclock).1
    have hpast : ∀ r ∈ past, r ≤ now := by
      intro r hr
      have := (List.pairwise_append.1 (List.pairwise_append.1 hfirst).1).2.2
      exact this r hr now (List.mem_singleton_self now)
    have hmem : now ∈ past ++ [now] := List.mem_append_right _ (List.mem_singleton_self now)
    have h₁ := Deed.run_settled e first hmem hfirst (h.mono [now])
    have h₂ := Deeds.run_settled e rest hclock h₁.2
    rw [Deeds.run]
    dsimp only
    have hreached : Faithful last (.reached now c :: (first.run e now c).1) := by
      refine ⟨?_, h₁.1⟩
      rintro now' c' he
      cases he
      exact h.agrees hpast
    refine ⟨hreached.append h₂.1, ?_⟩
    rw [standing_append]
    exact h₂.2

end

/-! ### Observations -/

structure Observation where
  loggedIn : Bool := false
  token : String := ""
  expiry : Int := 0
  account : Account := {}
  exported : String := ""

/-- Each question clears a stale session before it answers. -/
def Client.observe (c : Client ε ω) (now : Int) : Observation :=
  let c := c.refresh now
  { loggedIn := c.isLoggedIn now
    token := (c.session now).token
    expiry := (c.session now).expiry
    account := (c.session now).account
    exported := c.exportLogin now }

/-- All of a session, as it is observed while it is valid. -/
def Session.shown (s : Session) : Observation :=
  ⟨true, s.token, s.expiry, s.account, s.toLogin.text⟩

/-- The header lines of a draft are those it would have without the session, and these. -/
def Draft.SessionAdds (d : Draft) (lines : List String) : Prop :=
  ∃ before after, d.build.headers = before ++ lines ++ after ∧
    ({ d with withSession := false } : Draft).build.headers = before ++ after

def Session.header (s : Session) : String := Request.headerLine HeaderName.sessionToken s.token

theorem Draft.withSession_applyAll {steps : List Step} (h : .withoutSession ∉ steps) (d : Draft) :
    (d.applyAll steps).withSession = d.withSession := by
  induction steps generalizing d with
  | nil => rfl
  | cons s steps ih =>
    have hs : (d.apply s).withSession = d.withSession := by
      unfold apply change
      split
      · rfl
      · cases s <;> dsimp only <;> (try split) <;> first | rfl | simp at h
    rw [applyAll, List.foldl_cons, ← applyAll, ih fun hm => h (List.mem_cons_of_mem _ hm), hs]

/-- A draft that keeps the session adds a line for its token, if it has one. -/
theorem Draft.sessionAdds {d : Draft} (h : d.withSession = true) :
    d.SessionAdds (if d.sessionToken = "" then []
      else [Request.headerLine HeaderName.sessionToken d.sessionToken]) := by
  refine ⟨((lastAgent d.headers ++ [(HeaderName.appId, d.credentials.appId),
      (HeaderName.appKey, d.credentials.appKey)]).filter isFull).map fun p =>
        Request.headerLine p.1 p.2,
    ((if namesAgent d.headers then [] else [(HeaderName.userAgent, defaultUserAgent)]).filter
      isFull).map fun p => Request.headerLine p.1 p.2, ?_, ?_⟩
  · simp only [build, headerPairs, h, if_true, List.filter_append, List.map_append]
    congr 2
    by_cases ht : d.sessionToken = ""
    · simp [ht, isFull]
    · simp [ht, isFull, HeaderName.sessionToken]
  · simp only [build, headerPairs, Bool.false_eq_true, if_false, List.append_nil,
      List.filter_append, List.map_append]

theorem Client.sessionAdds_draft (c : Client ε ω) (now : Int) {steps : List Draft.Step}
    (h : .withoutSession ∉ steps) :
    ((c.service.draft now).applyAll steps).SessionAdds
      (if (c.session now).token = "" then [] else [(c.session now).header]) := by
  have hs := Draft.sessionAdds (d := (c.service.draft now).applyAll steps)
    (by rw [Draft.withSession_applyAll h]; rfl)
  rw [Draft.sessionToken_applyAll] at hs
  exact hs

theorem Client.isLoggedIn_eq (c : Client ε ω) (now : Int) :
    c.isLoggedIn now = (c.session now).isValid now := by
  unfold isLoggedIn session Session.view
  split
  · rfl
  · rename_i h
    simpa [Session.isValid] using h

theorem Client.observe_eq (c : Client ε ω) (now : Int) :
    c.observe now = if (c.session now).isValid now then (c.session now).shown else {} := by
  have hv : (c.refresh now).session now = c.session now := c.session_refresh (Int.le_refl now)
  unfold observe exportLogin
  dsimp only
  rw [isLoggedIn_eq, hv]
  split
  · rename_i h
    rw [h]
    rfl
  · rename_i h
    have hempty : c.session now = {} := by
      unfold session Session.view at h ⊢
      split
      · rename_i hc
        simp [hc] at h
      · rfl
    rw [hempty]
    rfl

/-! ### What is observed -/

/-- In a run with the clock never going back, at the time that an operation begins and at any later
time while the client stays as it is: when the session installed last has a token and its expiry is
to come, all of it is observed and nothing else, and drafts add its token; in any other case nothing
is observed, then or later, and drafts add no token. Clearing a stale session makes no difference to
either. -/
theorem observations_follow_last_session (e : Engine ε ω) (number : Nat) (config : Config)
    (site : Site ω) (ds : Deeds ε ω) (hclock : ds.readings.Pairwise (· ≤ ·))
    {before after : List (SessionEvent ε ω)} {start now : Int} {c : Client ε ω}
    (h : (ds.run e ⟨.ofConfig number config, site⟩).1 = before ++ .reached start c :: after)
    (hle : start ≤ now) :
    (∀ s, standing none before = some s → s.token ≠ "" → now < s.expiry →
      c.observe now = s.shown ∧
      ∀ steps, .withoutSession ∉ steps →
        ((c.service.draft now).applyAll steps).SessionAdds [s.header]) ∧
    ((∀ s, standing none before = some s → s.token = "" ∨ s.expiry ≤ now) →
      ∀ later, now ≤ later → c.observe later = {} ∧
      ∀ steps, .withoutSession ∉ steps →
        ((c.service.draft later).applyAll steps).SessionAdds []) ∧
    (∀ later, now ≤ later → (c.refresh now).observe later = c.observe later ∧
      (c.refresh now).service.draft later = c.service.draft later) := by
  have hstart : Settled [] (⟨.ofConfig number config, site⟩ : Client ε ω) none := by
    intro later _
    simp [Client.session, Service.ofConfig, Session.view, Session.isValid, seen]
  have hf := (ds.run_settled e hclock hstart).1
  rw [h] at hf
  have hagrees : Agrees start c (standing none before) := hf.agrees
  refine ⟨?_, ?_, ?_⟩
  · intro s hs htoken hexpiry
    have hvalid : s.isValid now = true := by
      simpa [Session.isValid, Session.isExpired, htoken] using hexpiry
    have hsession : c.session now = s := by
      rw [hagrees now hle, hs]
      exact Session.view_of_isValid hvalid
    refine ⟨?_, ?_⟩
    · rw [c.observe_eq, hsession, if_pos hvalid]
    · intro steps hsteps
      have hadds := c.sessionAdds_draft now hsteps
      rwa [hsession, if_neg htoken] at hadds
  · intro hgone later hlater
    have hsession : c.session later = {} := by
      rw [hagrees later (Int.le_trans hle hlater)]
      cases hs : standing none before with
      | none => rfl
      | some s =>
        have hinvalid : s.isValid now = false := by
          rcases hgone s hs with ht | he
          · simp [Session.isValid, ht]
          · simp [Session.isValid, Session.isExpired, he]
        exact Session.view_of_not_isValid (Session.isValid_mono hlater hinvalid)
    refine ⟨?_, ?_⟩
    · rw [c.observe_eq, hsession]
      rfl
    · intro steps hsteps
      have hadds := c.sessionAdds_draft later hsteps
      rwa [hsession, if_pos rfl] at hadds
  · intro later hlater
    have hsame := c.session_refresh hlater
    refine ⟨?_, ?_⟩
    · rw [Client.observe_eq, Client.observe_eq, hsame]
    · show ({ credentials := _, sessionToken := _, options := _ } : Draft) = _
      rw [show ((c.refresh now).service.session.view later) = c.service.session.view later from hsame]
      rfl

/-- A session is set and runs out at 5: it is observed at 2, and no more at 5 or after. -/
theorem observations_follow_last_session_of_expiry :
    let e : Engine Unit Unit := ⟨(), fun _ _ engine backend => (⟨[], .ok ()⟩, engine, backend)⟩
    let config : Config := { credentials := ⟨"http://h", "t", "a", "k", ""⟩ }
    let s : Session := ⟨"token", 5, { id := "u" }⟩
    let c : Client Unit Unit := ⟨.ofConfig 1 config, ⟨{}, ()⟩⟩
    let ds : Deeds Unit Unit :=
      .cons 1 (.setSession s) (.cons 2 (.request none [] .plain 0) (.cons 5 .look .nil))
    ((ds.run e c).2.observe 5 = {}) ∧ (c.setSession s).observe 2 = s.shown := by
  intro e config s c ds
  have hclock : ds.readings.Pairwise (· ≤ ·) := by decide
  let c₁ := c.setSession s
  let c₂ := (c₁.send e ((c₁.service.draft 2).applyAll []) .plain 0).2
  have hrun₁ : (ds.run e c).1
      = [.reached 1 c, .installed s] ++ .reached 2 c₁ :: [.reached 5 c₂] := rfl
  have hrun₂ : (ds.run e c).1
      = [.reached 1 c, .installed s, .reached 2 c₁] ++ .reached 5 c₂ :: [] := rfl
  have h₁ := observations_follow_last_session e 1 config ⟨{}, ()⟩ ds hclock hrun₁
    (Int.le_refl 2)
  have h₂ := observations_follow_last_session e 1 config ⟨{}, ()⟩ ds hclock hrun₂
    (Int.le_refl 5)
  refine ⟨?_, (h₁.1 s rfl (by decide) (by decide)).1⟩
  have hend : (ds.run e c).2 = c₂.refresh 5 := rfl
  rw [hend, (h₂.2.2 5 (by decide)).1]
  refine (h₂.2.1 ?_ 5 (by decide)).1
  intro s' hs'
  obtain rfl : s = s' := Option.some.inj hs'
  exact Or.inr (by decide)

end AppBackend
