import AppBackend.Proofs.Client.SessionHistory
import AppBackend.Transfer.Replay
import Mathlib.Algebra.Group.Int.Defs
import Mathlib.Algebra.Group.Nat.Defs

/-!
# Whether the engine was asked

An engine is watched: beside its backend it keeps the transfers that it was asked for. Main
statement: `outcome_tells_contact`, whatever an operation of a client does, it asks the engine at
most once, and its outcome tells whether it has. If it has not, the client is as it was, but for
what the outcome tells.
-/

namespace AppBackend

variable {ε ω α β : Type}

/-! ### Outcomes -/

/-- Failures that only a transfer can end in. -/
def Failure.ofTransfer : Failure → Bool
  | .transferBroken | .transferMisused | .transferUnexpected | .noStatus | .downloadLength => true
  | _ => false

def Outcome.tellsContact : Outcome α → Bool
  | .success _ | .rest _ => true
  | .fatal f => f.ofTransfer

theorem Outcome.tellsContact_map (f : α → β) (o : Outcome α) :
    (o.map f).tellsContact = o.tellsContact := by
  cases o <;> rfl

theorem Outcome.map_eq_fatal_iff {f : α → β} {o : Outcome α} {failure : Failure} :
    o.map f = .fatal failure ↔ o = .fatal failure := by
  cases o <;> simp [Outcome.map]

theorem tellsContact_classify (ending : Except TransferError Unit) (r : Response) :
    (classify ending r).tellsContact = true := by
  have hverdict : (if r.status = 0 then Outcome.fatal Failure.noStatus
      else if r.isSuccess then .success r
      else .rest ⟨r.status, r.bodyText⟩).tellsContact = true := by
    split
    · rfl
    · split <;> rfl
  unfold classify
  cases ending with
  | ok u => exact hverdict
  | error e =>
    dsimp only
    split
    · cases e <;> rfl
    · exact hverdict

theorem tellsContact_verify (written : Nat) {o : Outcome Response} (h : o.tellsContact = true) :
    (Executor.verify written o).tellsContact = true := by
  cases o with
  | success r =>
    simp only [Executor.verify, Outcome.andThen]
    split <;> rfl
  | rest error => rfl
  | fatal f => exact h

/-! ### Watched engines -/

/-- The engine, and beside its backend the transfers that it was asked for. -/
def Engine.watched (e : Engine ε ω) : Engine ε (ω × List Transfer) where
  fresh := e.fresh
  perform d t x w :=
    let (exchange, x, backend) := e.perform d t x w.1
    (exchange, x, (backend, w.2 ++ [t]))

def Site.unwatched (s : Site (ω × List Transfer)) : Site ω := ⟨s.disk, s.backend.1⟩

def Client.unwatched (c : Client ε (ω × List Transfer)) : Client ε ω :=
  ⟨c.service, c.site.unwatched⟩

/-- What becomes of a site when the engine is not asked. -/
structure Site.Quiet (s s' : Site (ω × List Transfer)) (o : Outcome α) : Prop where
  untold : o.tellsContact = false
  unasked : s'.backend.2 = s.backend.2
  /-- A local file may be made for a download whose method is then refused. -/
  disk : o ≠ .fatal .internal → s'.disk = s.disk

/-- What becomes of a site when the engine is asked once. -/
structure Site.Asked (s s' : Site (ω × List Transfer)) (seconds : Nat) (o : Outcome α) : Prop where
  told : o.tellsContact = true
  asked : ∃ t : Transfer, s'.backend.2 = s.backend.2 ++ [t] ∧ t.timeout = seconds

namespace Executor

variable (e : Engine ε ω) (x : Executor ε) (s : Site (ω × List Transfer))

theorem runPlain_watched (t : Transfer) :
    let r := runPlain e.watched x t s
    runPlain e x t s.unwatched = (r.1, r.2.1, r.2.2.unwatched) ∧
      s.Asked r.2.2 t.timeout r.1 :=
  ⟨rfl, tellsContact_classify _ _, t, rfl, rfl⟩

/-- A job is refused and the engine is not asked, or the engine is asked once. -/
theorem run_watched (job : Job) (r : Request) (timeout : Int) :
    let out := x.run e.watched job r timeout s
    x.run e job r timeout s.unwatched = (out.1, out.2.1, out.2.2.unwatched) ∧
      ((s.Quiet out.2.2 out.1 ∧ (out.1 = .fatal .localFile ∨ out.1 = .fatal .internal)) ∨
        s.Asked out.2.2 (effectiveTimeout timeout) out.1) := by
  cases job with
  | plain =>
    obtain ⟨hsame, hasked⟩ := runPlain_watched e x s ⟨r, effectiveTimeout timeout, none⟩
    exact ⟨hsame, Or.inr hasked⟩
  | upload path =>
    simp only [run, runUpload, Site.unwatched]
    split
    · exact ⟨rfl, Or.inl ⟨⟨rfl, rfl, fun _ => rfl⟩, Or.inl rfl⟩⟩
    · exact ⟨rfl, Or.inl ⟨⟨rfl, rfl, fun _ => rfl⟩, Or.inr rfl⟩⟩
    · rename_i node _ _
      obtain ⟨hsame, hasked⟩ := runPlain_watched e x s
        ⟨withLength r (Upload.ofNode node).length, effectiveTimeout timeout, some (.ofNode node)⟩
      exact ⟨hsame, Or.inr hasked⟩
  | download path =>
    simp only [run, runDownload, Site.unwatched]
    split
    · exact ⟨rfl, Or.inl ⟨⟨rfl, rfl, fun _ => rfl⟩, Or.inl rfl⟩⟩
    · split
      · refine ⟨rfl, Or.inr ⟨tellsContact_verify _ (tellsContact_classify _ _), ?_⟩⟩
        exact ⟨⟨r, effectiveTimeout timeout, none⟩, rfl, rfl⟩
      · exact ⟨rfl, Or.inl ⟨⟨rfl, rfl, fun h => absurd rfl h⟩, Or.inr rfl⟩⟩

end Executor

namespace Client

variable (e : Engine ε ω) (c : Client ε (ω × List Transfer))

/-- Sends a request that is built already, if the draft that it was built from has all it needs. -/
def dispatch (e : Engine ε ω) (d : Draft) (r : Request) (what : Job) (timeout : Int)
    (c : Client ε ω) : Outcome Response × Client ε ω :=
  c.execute e d .fatal fun x _ c => job e what timeout x r c

/-- What becomes of a client that asks its engine at most once. -/
def Spent (c c' : Client ε (ω × List Transfer)) (timeout : Int) (o : Outcome α) : Prop :=
  c.site.Quiet c'.site o ∧
      (o ≠ .fatal .localFile → o ≠ .fatal .internal → c'.service.pool = c.service.pool) ∨
    c.site.Asked c'.site (effectiveTimeout (c.service.timeoutFor timeout)) o

theorem Spent.refused {timeout : Int} {f : Failure} (hf : f.ofTransfer = false) :
    Spent c c timeout (.fatal f : Outcome α) :=
  Or.inl ⟨⟨hf, rfl, fun _ => rfl⟩, fun _ _ => rfl⟩

theorem dispatch_of_loan {e : Engine ε ω} {c : Client ε ω} {d : Draft} (h : d.missing? = none)
    {x : Executor ε} {pool : Pool ε} (hp : c.service.pool.acquire? e.fresh = some (x, pool))
    (r : Request) (what : Job) (timeout : Int) :
    c.dispatch e d r what timeout =
      let out := x.run e what r (c.service.timeoutFor timeout) c.site
      (out.1, (⟨{ c.service with pool }, out.2.2⟩ : Client ε ω).giveBack out.2.1) :=
  execute_of_loan h hp ..

theorem session_dispatch (e : Engine ε ω) (c : Client ε ω) (d : Draft) (r : Request) (what : Job)
    (timeout : Int) :
    (c.dispatch e d r what timeout).2.service.session = c.service.session := by
  cases hm : d.missing? with
  | some f => rw [dispatch, execute_of_missing hm]
  | none =>
    cases ha : c.service.pool.acquire? e.fresh with
    | none => rw [dispatch, execute_of_exhausted hm ha]
    | some loan =>
      rw [dispatch_of_loan hm ha]
      rfl

theorem ofTransfer_of_missing {d : Draft} {f : Failure} (h : d.missing? = some f) :
    f.ofTransfer = false := by
  unfold Draft.missing? Credentials.missing? at h
  repeat' split at h
  all_goals
    cases h
  all_goals rfl

theorem dispatch_watched (d : Draft) (r : Request) (what : Job) (timeout : Int) :
    let out := c.dispatch e.watched d r what timeout
    c.unwatched.dispatch e d r what timeout = (out.1, out.2.unwatched) ∧
      Spent c out.2 timeout out.1 := by
  cases hm : d.missing? with
  | some f =>
    simp only [dispatch, execute_of_missing hm]
    exact ⟨trivial, Spent.refused c (ofTransfer_of_missing hm)⟩
  | none =>
    cases ha : c.service.pool.acquire? e.fresh with
    | none =>
      have hplain : c.unwatched.service.pool.acquire? e.fresh = none := ha
      have hwatched : c.service.pool.acquire? e.watched.fresh = none := ha
      simp only [dispatch, execute_of_exhausted hm hplain, execute_of_exhausted hm hwatched]
      exact ⟨trivial, Spent.refused c rfl⟩
    | some loan =>
      obtain ⟨x, pool⟩ := loan
      have hplain : c.unwatched.service.pool.acquire? e.fresh = some (x, pool) := ha
      have hwatched : c.service.pool.acquire? e.watched.fresh = some (x, pool) := ha
      obtain ⟨hsame, hcontact⟩ := x.run_watched e c.site what r (c.service.timeoutFor timeout)
      rw [dispatch_of_loan hm hplain, dispatch_of_loan hm hwatched]
      rw [show x.run e what r (c.unwatched.service.timeoutFor timeout) c.unwatched.site = _
        from hsame]
      refine ⟨rfl, ?_⟩
      -- a loan that ends before the engine is asked may still have changed the pool
      rcases hcontact with ⟨hquiet, hfile | hinternal⟩ | hasked
      · exact Or.inl ⟨hquiet, fun h => absurd hfile h⟩
      · exact Or.inl ⟨hquiet, fun _ h => absurd hinternal h⟩
      · exact Or.inr hasked

theorem request_eq_dispatch (e : Engine ε ω) (c : Client ε ω) (now : Int) (steps : List Draft.Step)
    (what : Job) (timeout : Int) :
    c.request e now steps what timeout =
      c.dispatch e ((c.service.draft now).applyAll steps)
        ((c.service.draft now).applyAll steps).build what timeout := by
  rw [request, send, dispatch, execute, execute]

/-! ### Operations -/

theorem Spent.map {c c' : Client ε (ω × List Transfer)} {timeout : Int} {o : Outcome α}
    (h : Spent c c' timeout o) (f : α → β) : Spent c c' timeout (o.map f) := by
  obtain ⟨hquiet, hpool⟩ | hasked := h
  · refine Or.inl ⟨⟨?_, hquiet.unasked, fun hne => hquiet.disk ?_⟩, fun hfile hinternal => ?_⟩
    · rw [Outcome.tellsContact_map]
      exact hquiet.untold
    · rwa [Ne, Outcome.map_eq_fatal_iff] at hne
    · rw [Ne, Outcome.map_eq_fatal_iff] at hfile hinternal
      exact hpool hfile hinternal
  · refine Or.inr ⟨?_, hasked.asked⟩
    rw [Outcome.tellsContact_map]
    exact hasked.told

/-- What is made of a reply afterwards does not matter, as long as it is an outcome of a transfer. -/
theorem Spent.of_told {c c' c'' : Client ε (ω × List Transfer)} {timeout : Int} {o : Outcome α}
    {o' : Outcome β} (h : Spent c c' timeout o) (ho : o.tellsContact = true)
    (ho' : o'.tellsContact = true) (hsite : c''.site = c'.site) : Spent c c'' timeout o' := by
  obtain ⟨hquiet, -⟩ | hasked := h
  · cases hquiet.untold.symm.trans ho
  · exact Or.inr ⟨ho', by rw [hsite]; exact hasked.asked⟩

end Client

namespace Operation

theorem mem_of_firstFailure {checks : List (Bool × Failure)} {f : Failure}
    (h : firstFailure checks = some f) : f ∈ checks.map (·.2) := by
  induction checks with
  | nil => cases h
  | cons check checks ih =>
    obtain ⟨holds, g⟩ := check
    cases holds with
    | true => exact List.mem_cons.2 (Or.inl (Option.some.inj h).symm)
    | false => exact List.mem_cons_of_mem _ (ih h)

theorem ofTransfer_of_refused {o : Operation} {f : Failure} (h : o.plan.refused? = some f) :
    f.ofTransfer = false := by
  have hchecks : ∃ checks : List (Bool × Failure), o.plan.refused? = firstFailure checks ∧
      ∀ g ∈ checks.map (·.2), g.ofTransfer = false := by
    cases o <;> exact ⟨_, rfl, by simp [Failure.ofTransfer]⟩
  obtain ⟨checks, hplan, hall⟩ := hchecks
  exact hall f (mem_of_firstFailure (hplan.symm.trans h))

/-- The seconds that an operation asks for. -/
def timeout : Operation → Int
  | .getObject b _ _ | .queryObjects b _ _ | .saveObject b _ _ | .updateObject b _ _ _ _
  | .deleteObject b _ _ _ | .downloadFile b _ _ | .uploadNewFile b _ _ _ _ _
  | .uploadFile b _ _ _ _ _ | .uploadFileOf b _ _ | .deleteFile b _ _ _ _
  | .listFiles b _ _ => b.timeout
  | .callGateway g _ => g.timeout

theorem timeout_plan (o : Operation) : o.plan.timeout = o.timeout := by
  cases o <;> rfl

theorem run_watched (e : Engine ε ω) (now : Int) (o : Operation)
    (c : Client ε (ω × List Transfer)) :
    let out := o.run e.watched now c
    o.run e now c.unwatched = (out.1, out.2.unwatched) ∧ c.Spent out.2 o.timeout out.1 := by
  simp only [run_eq_plan, forget, Plan.run]
  cases hf : o.plan.refused? with
  | some f => exact ⟨rfl, .refused c (ofTransfer_of_refused hf)⟩
  | none =>
    simp only [Client.request_eq_dispatch, timeout_plan]
    obtain ⟨hsame, hspent⟩ := c.dispatch_watched e ((c.service.draft now).applyAll o.plan.steps)
      ((c.service.draft now).applyAll o.plan.steps).build o.plan.job o.timeout
    rw [show c.unwatched.service = c.service from rfl, hsame]
    exact ⟨rfl, hspent.map _⟩

end Operation

/-! ### Logging in and out -/

namespace Client

variable (e : Engine ε ω) (c : Client ε (ω × List Transfer))

theorem request_watched (now : Int) (steps : List Draft.Step) (what : Job) (timeout : Int) :
    let out := c.request e.watched now steps what timeout
    c.unwatched.request e now steps what timeout = (out.1, out.2.unwatched) ∧
      c.Spent out.2 timeout out.1 := by
  rw [request_eq_dispatch, request_eq_dispatch]
  exact c.dispatch_watched e ((c.service.draft now).applyAll steps) _ what timeout

theorem login_watched (now : Int) (username email password : String) (timeout : Int) :
    let out := c.login e.watched now username email password timeout
    c.unwatched.login e now username email password timeout = (out.1, out.2.unwatched) ∧
      c.Spent out.2 timeout out.1 ∧
      (out.1.tellsContact = false → out.2.service.session = c.service.session) := by
  obtain ⟨hsame, hspent⟩ :=
    c.request_watched e now (loginSteps username email password) .plain timeout
  have hkeep := c.session_request e.watched now (loginSteps username email password) .plain timeout
  by_cases harg : (username = "" ∧ email = "") ∨ password = ""
  · rw [login_of_refused harg, login_of_refused harg]
    exact ⟨rfl, .refused c rfl, fun _ => rfl⟩
  rw [login_of_accepted harg, login_of_accepted harg, hsame]
  generalize c.request e.watched now (loginSteps username email password) .plain timeout = r at *
  obtain ⟨o, c'⟩ := r
  cases o with
  | rest error => exact ⟨rfl, hspent.of_told rfl rfl rfl, fun _ => hkeep⟩
  | fatal f => exact ⟨rfl, hspent.map fun _ => ({} : Account), fun _ => hkeep⟩
  | success r =>
    simp only [concludeLogin]
    cases Login.ofObject? r.jsonObject with
    | none => exact ⟨rfl, hspent.of_told rfl rfl rfl, fun _ => hkeep⟩
    | some l =>
      refine ⟨rfl, hspent.of_told rfl rfl rfl, fun h => ?_⟩
      cases h

theorem logout_watched (now timeout : Int) :
    let out := c.logout e.watched now timeout
    c.unwatched.logout e now timeout = (out.1, out.2.unwatched) ∧ c.Spent out.2 timeout out.1 := by
  intro out
  cases hin : c.isLoggedIn now with
  | false =>
    have hplain : c.unwatched.isLoggedIn now = false := hin
    rw [show out = _ from logout_of_not_isLoggedIn hin .., logout_of_not_isLoggedIn hplain]
    exact ⟨rfl, Or.inl ⟨⟨rfl, rfl, fun _ => rfl⟩, fun _ _ => rfl⟩⟩
  | true =>
    have hplain : c.unwatched.isLoggedIn now = true := hin
    rw [show out = _ from logout_of_isLoggedIn hin .., logout_of_isLoggedIn hplain]
    obtain ⟨hsame, hspent⟩ := c.clearSession.dispatch_watched e (c.logoutDraft now)
      (c.logoutDraft now).build .plain timeout
    refine ⟨congrArg concludeLogout hsame, ?_⟩
    -- clearing the session touches nothing that a request may change
    exact Spent.map (c := c) hspent _

end Client

/-! ### Errands -/

/-- Anything that a client is asked to do and that may ask its engine. -/
inductive Errand where
  | login (username email password : String) (timeout : Int)
  | logout (timeout : Int)
  | operate (o : Operation)
  /-- A request built in any way from the draft as it is now, or from one taken earlier. -/
  | request (earlier : Option Draft) (build : Draft → Request) (what : Job) (timeout : Int)

namespace Errand

def timeout : Errand → Int
  | login _ _ _ timeout | logout timeout | request _ _ _ timeout => timeout
  | operate o => o.timeout

def run (e : Engine ε ω) (now : Int) (c : Client ε ω) : Errand → Outcome Unit × Client ε ω
  | login username email password timeout =>
    Operation.forget (c.login e now username email password timeout)
  | logout timeout => Operation.forget (c.logout e now timeout)
  | operate o => o.run e now c
  | request earlier build what timeout =>
    let d := earlier.getD (c.service.draft now)
    Operation.forget (c.dispatch e d (build d) what timeout)

/-- Whether the session is cleared before anything is sent. -/
def clears (a : Errand) (now : Int) (c : Client ε ω) : Bool :=
  match a with
  | logout _ => c.isLoggedIn now
  | _ => false

theorem run_watched (e : Engine ε ω) (now : Int) (a : Errand) (c : Client ε (ω × List Transfer)) :
    let out := a.run e.watched now c
    a.run e now c.unwatched = (out.1, out.2.unwatched) ∧ c.Spent out.2 a.timeout out.1 := by
  cases a with
  | login username email password timeout =>
    obtain ⟨hsame, hspent, -⟩ := c.login_watched e now username email password timeout
    simp only [run, Operation.forget, hsame]
    exact ⟨trivial, hspent.map _⟩
  | logout timeout =>
    obtain ⟨hsame, hspent⟩ := c.logout_watched e now timeout
    simp only [run, Operation.forget, hsame]
    exact ⟨trivial, hspent.map _⟩
  | operate o => exact o.run_watched e now c
  | request earlier build what timeout =>
    let d := earlier.getD (c.service.draft now)
    obtain ⟨hsame, hspent⟩ := c.dispatch_watched e d (build d) what timeout
    have hplain : (request earlier build what timeout).run e now c.unwatched
        = Operation.forget (c.unwatched.dispatch e d (build d) what timeout) := rfl
    rw [hplain, hsame]
    exact ⟨rfl, hspent.map _⟩

/-- An errand on which the engine is not asked leaves the session to be seen as it was, unless it
clears it. -/
theorem session_run (e : Engine ε ω) {now later : Int} (hle : now ≤ later) (a : Errand)
    (c : Client ε (ω × List Transfer))
    (h : (a.run e.watched now c).1.tellsContact = false) :
    (a.run e.watched now c).2.session later
      = if a.clears now c then {} else c.session later := by
  cases a with
  | login username email password timeout =>
    obtain ⟨-, -, hsession⟩ := c.login_watched e now username email password timeout
    rw [run, Operation.forget, Outcome.tellsContact_map] at h
    exact congrArg (·.view later) (hsession h)
  | logout timeout =>
    have hempty := c.session_logout e.watched hle timeout
    cases hin : c.isLoggedIn now with
    | true =>
      have hclears : (logout timeout).clears now c = true := hin
      rw [if_pos hclears]
      exact hempty
    | false =>
      have hclears : ¬ (logout timeout).clears now c = true := by simp [clears, hin]
      rw [if_neg hclears]
      exact hempty.trans (Session.view_of_not_isValid (Session.isValid_mono hle hin)).symm
  | operate o =>
    exact congrArg (·.view later) (o.session_run e.watched now c)
  | request earlier build what timeout =>
    exact congrArg (·.view later) (c.session_dispatch ..)

end Errand

/-- A client whose engine has not been asked for anything yet. -/
def Client.watch (c : Client ε ω) : Client ε (ω × List Transfer) :=
  ⟨c.service, c.site.disk, (c.site.backend, [])⟩

theorem effectiveTimeout_eq (timeout fallback : Int) :
    (effectiveTimeout (if 0 < timeout then timeout else fallback) : Int)
      = if 0 < timeout then timeout else if 0 < fallback then fallback else 60 := by
  unfold effectiveTimeout defaultTimeout
  repeat' split
  all_goals omega

/-- The outcome tells whether the engine was asked, whatever the engine does. To watch it changes
nothing. It is asked once or not at all: once if there is a reply or a failure of a transfer. If it
is not asked, then the session is seen as before, but for a logout of a session that was there;
local files are as before, but for a failure that is internal; and the pool is as before, but for
such a failure or one of a local file. If it is asked, then it is given the first positive one of the
seconds that the errand asks for, those of the service and 60. -/
theorem outcome_tells_contact (e : Engine ε ω) (now : Int) (a : Errand) (c : Client ε ω) :
    let out := a.run e now c
    let seen := a.run e.watched now c.watch
    let asked := seen.2.site.backend.2
    seen.1 = out.1 ∧ seen.2.unwatched = out.2 ∧
    asked.length ≤ 1 ∧ (asked.length = 1 ↔ out.1.tellsContact = true) ∧
    (asked = [] →
      (∀ later, now ≤ later →
        out.2.session later = if a.clears now c then {} else c.session later) ∧
      (out.1 ≠ .fatal .internal → out.2.site.disk = c.site.disk) ∧
      (out.1 ≠ .fatal .localFile → out.1 ≠ .fatal .internal →
        out.2.service.pool = c.service.pool)) ∧
    ∀ t ∈ asked,
      (t.timeout : Int) = (if 0 < a.timeout then a.timeout
        else if 0 < c.service.timeout then c.service.timeout else 60) ∧
      (a.timeout < 2 ^ 31 → c.service.timeout < 2 ^ 31 →
        1 ≤ t.timeout ∧ t.timeout ≤ 2 ^ 31 - 1) := by
  intro out seen asked
  obtain ⟨hsame, hspent⟩ := a.run_watched e now c.watch
  have hsession {later : Int} (hle : now ≤ later) := a.session_run e hle c.watch
  have hout : out = (seen.1, seen.2.unwatched) := hsame
  rw [hout]
  refine ⟨rfl, rfl, ?_⟩
  obtain ⟨hquiet, hpool⟩ | ⟨htold, t, hasked, htimeout⟩ := hspent
  · have hnone : asked = [] := hquiet.unasked
    have huntold : seen.1.tellsContact = false := hquiet.untold
    rw [hnone]
    refine ⟨Nat.zero_le _, by simp [huntold], fun _ => ⟨?_, hquiet.disk, hpool⟩, by simp⟩
    exact fun later hle => hsession hle huntold
  · have hone : asked = [t] := hasked
    have htold : seen.1.tellsContact = true := htold
    rw [hone]
    refine ⟨Nat.le_refl 1, by simp [htold], nofun, ?_⟩
    intro t' ht'
    rw [List.mem_singleton.1 ht', htimeout]
    have heq := effectiveTimeout_eq a.timeout c.service.timeout
    refine ⟨heq, fun ha hs => ?_⟩
    change 1 ≤ effectiveTimeout (if 0 < a.timeout then a.timeout else c.service.timeout) ∧
      effectiveTimeout (if 0 < a.timeout then a.timeout else c.service.timeout) ≤ 2 ^ 31 - 1
    generalize effectiveTimeout _ = seconds at heq ⊢
    repeat' split at heq
    all_goals omega

/-- A folder is sent: the engine is asked, and it is a transfer that fails. With no executor to be
had it is not asked, and a logout clears the session all the same. -/
theorem outcome_tells_contact_of_folder :
    let credentials : Credentials := ⟨"http://mock", "tenant", "app-id", "app-key", ""⟩
    let disk : Disk := { nodes := [(["d"], .folder)] }
    let client (executors : Nat) : Client Unit Replay :=
      ⟨⟨credentials, {}, ⟨"t", 10, {}⟩, .new 1 executors, 7⟩, disk, {}⟩
    let upload : Errand := .operate (.uploadNewFile ⟨"b", 0⟩ "n" "d" "text/plain" "" false)
    let asked (a : Errand) (c : Client Unit Replay) :=
      (a.run Replay.engine.watched 0 c.watch).2.site.backend.2
    (asked upload (client 1)).length = 1 ∧ (∀ t ∈ asked upload (client 1), (t.timeout : Int) = 7) ∧
      asked (.logout 5) (client 0) = [] ∧
      (Errand.run Replay.engine 0 (client 0) (.logout 5)).2.session 0 = {} := by
  intro credentials disk client upload asked
  obtain ⟨-, -, -, hone, -, htimeout⟩ := outcome_tells_contact Replay.engine 0 upload (client 1)
  obtain ⟨-, -, -, -, hnone, -⟩ := outcome_tells_contact Replay.engine 0 (.logout 5) (client 0)
  have hasked : asked (.logout 5) (client 0) = [] := by decide +kernel
  refine ⟨hone.2 (by decide +kernel), fun t ht => (htimeout t ht).1, hasked, ?_⟩
  exact (hnone hasked).1 0 (Int.le_refl 0)

end AppBackend
