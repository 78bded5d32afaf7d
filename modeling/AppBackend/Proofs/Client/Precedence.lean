import AppBackend.Proofs.Client.Traffic
import AppBackend.Proofs.Pool.Lending

/-!
# The order of failures

Whatever fails before the engine is asked, fails in one order: arguments or a missing login first,
then credentials, then the pool, then the local file. Main statement: `failures_in_order`, the first
condition that holds is the one reported, and only with none of them the engine decides.
-/

namespace AppBackend

variable {ε ω : Type}

/-! ### First failures -/

namespace Operation

theorem firstFailure_append_of_passing {before : List (Bool × Failure)}
    (h : ∀ p ∈ before, p.1 = false) (rest : List (Bool × Failure)) :
    firstFailure (before ++ rest) = firstFailure rest := by
  induction before with
  | nil => rfl
  | cons p before ih =>
    obtain ⟨holds, f⟩ := p
    obtain rfl : holds = false := h _ (List.mem_cons_self ..)
    exact ih fun q hq => h q (List.mem_cons_of_mem _ hq)

theorem firstFailure_append (xs ys : List (Bool × Failure)) :
    firstFailure (xs ++ ys) = (firstFailure xs).or (firstFailure ys) := by
  induction xs with
  | nil => rfl
  | cons p xs ih =>
    obtain ⟨holds, f⟩ := p
    cases holds with
    | true => rfl
    | false => exact ih

theorem firstFailure_eq_none_of_passing {checks : List (Bool × Failure)}
    (h : ∀ p ∈ checks, p.1 = false) : firstFailure checks = none := by
  have happend := firstFailure_append_of_passing h []
  rwa [List.append_nil] at happend

end Operation

/-! ### Conditions -/

def Credentials.conditions (k : Credentials) : List (Bool × Failure) :=
  [(k.endpoint == "", .noEndpoint), (k.tenant == "", .noTenant), (k.appId == "", .noAppId),
    (k.appKey == "", .noAppKey)]

theorem Credentials.missing?_eq (k : Credentials) :
    k.missing? = Operation.firstFailure k.conditions := by
  simp only [missing?, conditions, Operation.firstFailure, beq_iff_eq]

/-- Whether the local file of a job can be opened: to be read for an upload, to be written for a
download. -/
def Job.opens (d : Disk) : Job → Bool
  | .plain => true
  | .upload path => (d.node? path).isSome
  | .download path => path == Disk.fullDevice || (d.write? path []).isSome

/-- Uploads need a method that sends a body, and downloads the one that gets. -/
def Job.suits : Job → Method → Bool
  | .plain, _ => true
  | .upload _, m => m.sendsBody
  | .download _, m => m == .get

namespace Draft

def Step.isTarget : Step → Bool
  | .target _ _ => true
  | _ => false

theorem method_change (d : Draft) {s : Step} (h : s.isTarget = false) :
    (d.change s).method = d.method := by
  cases s with
  | target m path => cases h
  | appendParam key value | appendHeader name value =>
    simp only [change]
    split <;> rfl
  | _ => rfl

/-- The method stays as it was chosen, unless there is another target. -/
theorem method_applyAll {d : Draft} (h : d.missing? = none) {m : Method} {path : String}
    {ss : List Step} (hss : ∀ s ∈ ss, s.isTarget = false) :
    (d.applyAll (.target m path :: ss)).method = m := by
  have hfold (d : Draft) : (ss.foldl change d).method = d.method := by
    induction ss generalizing d with
    | nil => rfl
    | cons s ss ih =>
      rw [List.foldl_cons, ih fun s hs => hss s (List.mem_cons_of_mem _ hs),
        method_change d (hss s (List.mem_cons_self ..))]
  rw [applyAll_of_complete h, List.foldl_cons]
  exact hfold _

end Draft

namespace Operation

/-- The checks of the arguments in their order, each with whether it fails. -/
def checks : Operation → List (Bool × Failure)
  | .getObject b id _ => [(id == "", .invalidArgument), (b.name == "", .noBucket)]
  | .queryObjects b _ _ | .saveObject b _ _ | .listFiles b _ _ => [(b.name == "", .noBucket)]
  | .updateObject b id _ data _ =>
    [(data.isEmpty, .invalidArgument), (b.name == "", .noBucket), (id == "", .noObjectId)]
  | .deleteObject b id _ _ => [(b.name == "", .noBucket), (id == "", .noObjectId)]
  | .downloadFile b name localPath | .uploadFile b name localPath _ _ _ =>
    [(name == "" || localPath == "", .invalidArgument), (b.name == "", .noBucket)]
  | .uploadFileOf b m localPath =>
    [(m.filename == "" || localPath == "", .invalidArgument), (b.name == "", .noBucket)]
  | .uploadNewFile b name localPath contentType _ _ =>
    [(name == "" || localPath == "" || contentType == "", .invalidArgument),
      (b.name == "", .noBucket)]
  | .deleteFile b name _ _ _ => [(name == "", .invalidArgument), (b.name == "", .noBucket)]
  | .callGateway g body =>
    [(g.name == "", .noApiName),
      (g.method.sendsBody && !body.isEmpty && g.contentType == "", .noContentType)]

def job : Operation → Job
  | .downloadFile _ _ localPath => .download localPath
  | .uploadNewFile _ _ localPath _ _ _ | .uploadFile _ _ localPath _ _ _
  | .uploadFileOf _ _ localPath => .upload localPath
  | _ => .plain

theorem job_plan (o : Operation) : o.plan.job = o.job := by
  cases o <;> rfl

theorem refused?_plan (o : Operation) : o.plan.refused? = firstFailure o.checks := by
  cases o with
  | uploadNewFile b name localPath contentType acl cacheDisabled =>
    simp only [plan, checks, Bool.or_assoc]
  | callGateway g body =>
    have hbody : (g.effectiveBody body).isEmpty = !(g.method.sendsBody && !body.isEmpty) := by
      unfold Gateway.effectiveBody
      cases g.method.sendsBody <;> simp
    simp only [plan, checks, hbody, Bool.not_not]
  | _ => rfl

/-- The method of an operation is one that its job can be done with. -/
theorem suits_plan {d : Draft} (h : d.missing? = none) (o : Operation) :
    o.job.suits (d.applyAll o.plan.steps).build.method = true := by
  have hfile (m : Method) (b : Bucket) (name : String) (ss : List Draft.Step)
      (hss : ∀ s ∈ ss, s.isTarget = false) :
      (d.applyAll (FileBucket.target m b name ++ ss)).build.method = m := by
    refine Draft.method_applyAll h fun s hs => ?_
    obtain rfl | hs := List.mem_cons.1 hs
    · rfl
    · exact hss s hs
  have hput (b : Bucket) (name contentType metaEtag fileEtag : String) :
      (d.applyAll (FileBucket.target .put b name
        ++ .appendHeader HeaderName.contentType contentType
          :: FileBucket.etagParams metaEtag fileEtag)).build.method = .put :=
    hfile .put b name _ (by simp [FileBucket.etagParams, Draft.Step.isTarget])
  cases o with
  | downloadFile b name localPath =>
    have hmethod := hfile .get b name [] nofun
    rw [List.append_nil] at hmethod
    exact beq_iff_eq.2 hmethod
  | uploadNewFile b name localPath contentType acl cacheDisabled =>
    have hmethod := hfile .post b name
      ([.appendHeader HeaderName.contentType contentType, .appendHeader HeaderName.acl acl]
        ++ Draft.Step.optionalParam cacheDisabled "cacheDisabled" "true")
      (by cases cacheDisabled <;> simp [Draft.Step.optionalParam, Draft.Step.isTarget])
    rw [← List.append_assoc] at hmethod
    exact congrArg Method.sendsBody hmethod
  | uploadFile b name localPath contentType metaEtag fileEtag =>
    exact congrArg Method.sendsBody (hput b name contentType metaEtag fileEtag)
  | uploadFileOf b m localPath =>
    exact congrArg Method.sendsBody (hput b m.filename m.contentType m.metaEtag m.fileEtag)
  | _ => rfl

end Operation

/-! ### Executors -/

/-- An engine on which every transfer fails. -/
def Engine.failing (e : Engine ε ω) (error : TransferError) : Engine ε ω where
  fresh := e.fresh
  perform _ _ x w := (⟨[], .error error⟩, x, w)

namespace Executor

variable {job : Job} {r : Request} {s : Site ω}

theorem openDestination?_isSome {d : Disk} {path : String}
    (h : (Job.download path).opens d = true) :
    ∃ destination d', openDestination? d path = some (destination, d') := by
  unfold openDestination?
  split
  · exact ⟨_, _, rfl⟩
  · rename_i hdevice
    have hwrite : (d.write? path []).isSome = true := by simpa [Job.opens, hdevice] using h
    obtain ⟨d', hd'⟩ := Option.isSome_iff_exists.1 hwrite
    exact ⟨.file [], d', by rw [hd']; rfl⟩

theorem openDestination?_eq_none {d : Disk} {path : String}
    (h : (Job.download path).opens d = false) : openDestination? d path = none := by
  simp only [Job.opens, Bool.or_eq_false_iff, beq_eq_false_iff_ne, Option.isSome_eq_false_iff,
    Option.isNone_iff_eq_none] at h
  rw [openDestination?, if_neg h.1, h.2]
  rfl

/-- A job whose local file cannot be opened. -/
theorem run_of_not_opens (h : job.opens s.disk = false) (e : Engine ε ω) (x : Executor ε)
    (r : Request) (timeout : Int) : (x.run e job r timeout s).1 = .fatal .localFile := by
  cases job with
  | plain => cases h
  | upload path =>
    have hnode : s.disk.node? path = none := by simpa [Job.opens] using h
    simp only [run, runUpload, hnode]
  | download path => simp only [run, runDownload, openDestination?_eq_none h]

/-- A job whose local file can be opened asks the engine, and that decides. -/
theorem run_of_opens (hopens : job.opens s.disk = true) (hsuits : job.suits r.method = true)
    (e : Engine ε ω) (x : Executor ε) (timeout : Int) :
    (x.run e job r timeout s).1.tellsContact = true ∧
      ∀ error, (x.run (e.failing error) job r timeout s).1 = .fatal error.failure := by
  cases job with
  | plain => exact ⟨tellsContact_classify _ _, fun error => rfl⟩
  | upload path =>
    have hnode : (s.disk.node? path).isSome = true := hopens
    obtain ⟨node, hnode⟩ := Option.isSome_iff_exists.1 hnode
    have hsends : r.method.sendsBody = true := hsuits
    simp only [run, runUpload, hnode, hsends]
    exact ⟨tellsContact_classify _ _, fun error => rfl⟩
  | download path =>
    obtain ⟨destination, disk, hopen⟩ := openDestination?_isSome hopens
    have hget : r.method = .get := beq_iff_eq.1 hsuits
    simp only [run, runDownload, hopen, hget, if_true]
    exact ⟨tellsContact_verify _ (tellsContact_classify _ _), fun error => rfl⟩

end Executor

/-! ### Requests -/

/-- No executor is idle and the ceiling is reached. -/
def Pool.isSpent (p : Pool ε) : Bool := p.idle.isEmpty && p.created == p.capacity

/-- All that are made and may be made are as many as the pool can have. -/
def Pool.Counts (p : Pool ε) : Prop := p.created + p.creatable = p.capacity

theorem Pool.Counts.acquire?_eq_none_iff {p : Pool ε} (h : p.Counts) (fresh : ε) :
    p.acquire? fresh = none ↔ p.isSpent = true := by
  unfold Counts at h
  rw [Pool.acquire?_eq_none_iff, isSpent, Bool.and_eq_true, List.isEmpty_iff, beq_iff_eq]
  exact and_congr_right fun _ => by omega

namespace Client

/-- What keeps a request from the engine, in order. -/
def conditions (k : Credentials) (what : Job) (c : Client ε ω) : List (Bool × Failure) :=
  k.conditions ++
    [(c.service.pool.isSpent, .poolExhausted), (!what.opens c.site.disk, .localFile)]

variable {d : Draft} {what : Job} {timeout : Int} {c : Client ε ω}

theorem outcome_send_of_loan (hm : d.missing? = none) (e : Engine ε ω) {x : Executor ε}
    {pool : Pool ε} (ha : c.service.pool.acquire? e.fresh = some (x, pool)) :
    (c.send e d what timeout).1
      = (x.run e what d.build (c.service.timeoutFor timeout) c.site).1 := by
  rw [send, execute_of_loan hm ha]
  rfl

theorem send_of_failing (hpool : c.service.pool.Counts) {f : Failure}
    (h : Operation.firstFailure (c.conditions d.credentials what) = some f) (e : Engine ε ω) :
    (c.send e d what timeout).1 = .fatal f := by
  rw [conditions, Operation.firstFailure_append, ← Credentials.missing?_eq] at h
  cases hm : d.missing? with
  | some g =>
    rw [show d.credentials.missing? = some g from hm, Option.some_or] at h
    rw [send, execute_of_missing hm, Option.some.inj h]
  | none =>
    rw [show d.credentials.missing? = none from hm, Option.none_or] at h
    cases ha : c.service.pool.acquire? e.fresh with
    | none =>
      rw [(hpool.acquire?_eq_none_iff e.fresh).1 ha] at h
      rw [send, execute_of_exhausted hm ha, ← Option.some.inj h]
    | some loan =>
      have hspent : c.service.pool.isSpent = false := by
        rw [← Bool.not_eq_true, ← hpool.acquire?_eq_none_iff e.fresh, ha]
        exact Option.some_ne_none loan
      rw [hspent] at h
      cases hopens : what.opens c.site.disk with
      | true =>
        rw [hopens] at h
        cases h
      | false =>
        rw [hopens] at h
        cases h
        rw [outcome_send_of_loan hm e ha]
        exact Executor.run_of_not_opens hopens ..

theorem send_of_passing (hpool : c.service.pool.Counts)
    (h : Operation.firstFailure (c.conditions d.credentials what) = none)
    (hsuits : d.missing? = none → what.suits d.build.method = true) (e : Engine ε ω) :
    (c.send e d what timeout).1.tellsContact = true ∧
      ∀ error, (c.send (e.failing error) d what timeout).1 = .fatal error.failure := by
  rw [conditions, Operation.firstFailure_append, ← Credentials.missing?_eq,
    Option.or_eq_none_iff] at h
  obtain ⟨hm, h⟩ := h
  have hm : d.missing? = none := hm
  have hfree : c.service.pool.isSpent = false ∧ what.opens c.site.disk = true := by
    cases hspent : c.service.pool.isSpent <;> cases hopens : what.opens c.site.disk <;>
      simp_all [Operation.firstFailure]
  cases ha : c.service.pool.acquire? e.fresh with
  | none => cases hfree.1.symm.trans ((hpool.acquire?_eq_none_iff e.fresh).1 ha)
  | some loan =>
    have hruns := Executor.run_of_opens hfree.2 (hsuits hm) e loan.1 (c.service.timeoutFor timeout)
    refine ⟨?_, fun error => ?_⟩
    · rw [outcome_send_of_loan hm e ha]
      exact hruns.1
    · rw [outcome_send_of_loan hm (e.failing error) ha]
      exact hruns.2 error

end Client

/-! ### Errands -/

namespace Errand

/-- The checks of the arguments in their order, each with whether it fails. A logout checks instead
that there is a login. -/
def checks (now : Int) (c : Client ε ω) : Errand → List (Bool × Failure)
  | login username email password _ =>
    [((username == "" && email == "") || password == "", .invalidArgument)]
  | logout _ => [(!c.isLoggedIn now, .notLoggedIn)]
  | operate o => o.checks
  | request .. => []

def job : Errand → Job
  | operate o => o.job
  | request _ _ what _ => what
  | _ => .plain

/-- What keeps an errand from the engine, in order: arguments, credentials, pool, local file. -/
def conditions (now : Int) (c : Client ε ω) (a : Errand) : List (Bool × Failure) :=
  a.checks now c ++ c.conditions c.service.credentials a.job

/-- Whatever the engine, an errand comes down to one request, and its outcome to that of the
request. -/
structure SendsAs (a : Errand) (now : Int) (c c' : Client ε ω) (d : Draft)
    (conclude : Outcome Response → Outcome Unit) : Prop where
  pool : c'.service.pool = c.service.pool
  site : c'.site = c.site
  credentials : d.credentials = c.service.credentials
  suits : d.missing? = none → a.job.suits d.build.method = true
  fatal : ∀ f, conclude (.fatal f) = .fatal f
  told : ∀ o, o.tellsContact = true → (conclude o).tellsContact = true
  outcome : ∀ e : Engine ε ω, (a.run e now c).1 = conclude (c'.send e d a.job a.timeout).1

theorem outcome_concludeLogin (now : Int) (o : Outcome Response) (c c' : Client ε ω) :
    (Client.concludeLogin now (o, c)).1.map (fun _ => ())
      = (Client.concludeLogin now (o, c')).1.map fun _ => () := by
  obtain ⟨verdict, next, hconclude⟩ := Client.exists_concludeLogin now o
  rw [hconclude, hconclude]

theorem tellsContact_concludeLogin (now : Int) {o : Outcome Response} (h : o.tellsContact = true)
    (c : Client ε ω) : (Client.concludeLogin now (o, c)).1.tellsContact = true := by
  cases o with
  | success r =>
    simp only [Client.concludeLogin]
    cases Login.ofObject? r.jsonObject with
    | none => rfl
    | some l => rfl
  | rest error => rfl
  | fatal f => exact h

theorem exists_sendsAs {now : Int} {c : Client ε ω} {a : Errand}
    (hnamed : ∀ earlier build what timeout, a ≠ .request earlier build what timeout)
    (hchecks : Operation.firstFailure (a.checks now c) = none) :
    ∃ c' d conclude, a.SendsAs now c c' d conclude := by
  cases a with
  | login username email password timeout =>
    have harg : ¬ ((username = "" ∧ email = "") ∨ password = "") := by
      simpa [checks, Operation.firstFailure] using hchecks
    refine ⟨c, (c.service.draft now).applyAll (Client.loginSteps username email password),
      fun o => (Client.concludeLogin now (o, c)).1.map fun _ => (), rfl, rfl, ?_, fun _ => rfl,
      fun _ => rfl, fun o ho => ?_, fun e => ?_⟩
    · rw [Draft.credentials_applyAll]
      rfl
    · rw [Outcome.tellsContact_map]
      exact tellsContact_concludeLogin now ho c
    · rw [run, Client.login_of_accepted harg]
      exact outcome_concludeLogin ..
  | logout timeout =>
    have hin : c.isLoggedIn now = true := by
      simpa [checks, Operation.firstFailure] using hchecks
    refine ⟨c.clearSession, c.logoutDraft now,
      fun o => (o.map fun r => (Account.ofObject? r.jsonObject).getD {}).map fun _ => (), rfl, rfl,
      ?_, fun _ => rfl, fun _ => rfl, fun o ho => ?_, fun e => ?_⟩
    · rw [Client.logoutDraft, Draft.credentials_applyAll]
      rfl
    · rwa [Outcome.tellsContact_map, Outcome.tellsContact_map]
    · rw [run, Client.logout_of_isLoggedIn hin]
      rfl
  | operate o =>
    have hplan : o.plan.refused? = none := o.refused?_plan.trans hchecks
    refine ⟨c, (c.service.draft now).applyAll o.plan.steps, fun r => r.map fun _ => (), rfl, rfl,
      ?_, fun h => o.suits_plan ?_, fun _ => rfl, fun r hr => ?_, fun e => ?_⟩
    · rw [Draft.credentials_applyAll]
      rfl
    · rwa [Draft.missing?_applyAll] at h
    · rwa [Outcome.tellsContact_map]
    · rw [run, Operation.run_eq_plan, Operation.forget, Plan.run, hplan, job, timeout,
        ← o.job_plan, ← o.timeout_plan]
      rfl
  | request earlier build what timeout => exact absurd rfl (hnamed earlier build what timeout)

theorem run_of_failing_check {now : Int} {c : Client ε ω} {a : Errand} {f : Failure}
    (hchecks : Operation.firstFailure (a.checks now c) = some f) (e : Engine ε ω) :
    (a.run e now c).1 = .fatal f := by
  cases a with
  | login username email password timeout =>
    cases hcheck : (username == "" && email == "") || password == "" with
    | false =>
      rw [checks, hcheck] at hchecks
      cases hchecks
    | true =>
      have harg : (username = "" ∧ email = "") ∨ password = "" := by simpa using hcheck
      rw [checks, hcheck] at hchecks
      rw [run, Client.login_of_refused harg, ← Option.some.inj hchecks]
      rfl
  | logout timeout =>
    cases hin : c.isLoggedIn now with
    | true =>
      rw [checks, hin] at hchecks
      cases hchecks
    | false =>
      rw [checks, hin] at hchecks
      rw [run, Client.logout_of_not_isLoggedIn hin, ← Option.some.inj hchecks]
      rfl
  | operate o =>
    have hplan : o.plan.refused? = some f := o.refused?_plan.trans hchecks
    rw [run, Operation.run_eq_plan, Operation.forget, Plan.run, hplan]
    rfl
  | request earlier build what timeout => cases hchecks

section
variable {now : Int} {c : Client ε ω} {a : Errand} (hpool : c.service.pool.Counts)
  (hnamed : ∀ earlier build what timeout, a ≠ .request earlier build what timeout)
include hpool hnamed

theorem run_of_failing {f : Failure}
    (h : Operation.firstFailure (a.conditions now c) = some f) (e : Engine ε ω) :
    (a.run e now c).1 = .fatal f := by
  rw [conditions, Operation.firstFailure_append] at h
  cases hchecks : Operation.firstFailure (a.checks now c) with
  | some g =>
    rw [hchecks, Option.some_or] at h
    rw [run_of_failing_check hchecks, Option.some.inj h]
  | none =>
    rw [hchecks, Option.none_or] at h
    obtain ⟨c', d, conclude, hs⟩ := exists_sendsAs hnamed hchecks
    have hconditions : c'.conditions d.credentials a.job
        = c.conditions c.service.credentials a.job := by
      rw [Client.conditions, Client.conditions, hs.pool, hs.site, hs.credentials]
    rw [← hconditions] at h
    rw [hs.outcome, Client.send_of_failing (hs.pool ▸ hpool) h, hs.fatal]

theorem run_of_passing (h : Operation.firstFailure (a.conditions now c) = none)
    (e : Engine ε ω) :
    (a.run e now c).1.tellsContact = true ∧
      ∀ error, (a.run (e.failing error) now c).1 = .fatal error.failure := by
  rw [conditions, Operation.firstFailure_append, Option.or_eq_none_iff] at h
  obtain ⟨hchecks, h⟩ := h
  obtain ⟨c', d, conclude, hs⟩ := exists_sendsAs hnamed hchecks
  have hconditions : c'.conditions d.credentials a.job
      = c.conditions c.service.credentials a.job := by
    rw [Client.conditions, Client.conditions, hs.pool, hs.site, hs.credentials]
  rw [← hconditions] at h
  have hsent : (c'.send e d a.job a.timeout).1.tellsContact = true ∧
      ∀ error, (c'.send (e.failing error) d a.job a.timeout).1 = .fatal error.failure :=
    Client.send_of_passing (hs.pool ▸ hpool) h hs.suits e
  obtain ⟨htold, hfails⟩ := hsent
  refine ⟨?_, fun error => ?_⟩
  · rw [hs.outcome]
    exact hs.told _ htold
  · rw [hs.outcome, hfails, hs.fatal]

end

/-- None of the failures before the engine is asked is one of a transfer. -/
theorem ofTransfer_of_mem_conditions {now : Int} {c : Client ε ω} {a : Errand}
    {p : Bool × Failure} (h : p ∈ a.conditions now c) : p.2.ofTransfer = false := by
  have hsend : ∀ f ∈ (c.conditions c.service.credentials a.job).map (·.2),
      f.ofTransfer = false := by
    simp [Client.conditions, Credentials.conditions, Failure.ofTransfer]
  have hchecks : ∀ f ∈ (a.checks now c).map (·.2), f.ofTransfer = false := by
    cases a with
    | operate o => cases o <;> simp [checks, Operation.checks, Failure.ofTransfer]
    | _ => simp [checks, Failure.ofTransfer]
  rcases List.mem_append.1 h with h | h
  · exact hchecks _ (List.mem_map_of_mem h)
  · exact hsend _ (List.mem_map_of_mem h)

end Errand

/-- The first condition that holds is the failure that is reported, whatever holds after it and
whatever the engine, which is not asked. With none of them the engine is asked once, and it decides:
if its transfers fail, then so does the errand, in the way that they do. -/
theorem failures_in_order (e : Engine ε ω) (now : Int) (a : Errand)
    (hnamed : ∀ earlier build what timeout, a ≠ .request earlier build what timeout)
    (c : Client ε ω) {as : List (Lending.Action ε)} {i : Nat}
    (hpool : (Lending.run as).pools[i]? = some c.service.pool) :
    let out := a.run e now c
    let asked := (a.run e.watched now c.watch).2.site.backend.2
    (∀ before f after, a.conditions now c = before ++ (true, f) :: after →
      (∀ p ∈ before, p.1 = false) → out.1 = .fatal f ∧ asked = []) ∧
    ((∀ p ∈ a.conditions now c, p.1 = false) →
      asked.length = 1 ∧ ∀ error, (a.run (e.failing error) now c).1 = .fatal error.failure) := by
  intro out asked
  have hcounts : c.service.pool.Counts := ((Lending.sound_run as).balanced i _ hpool).capacity
  obtain ⟨hsame, hspent⟩ := a.run_watched e now c.watch
  have hout : out.1 = (a.run e.watched now c.watch).1 := congrArg Prod.fst hsame
  constructor
  · intro before f after hconditions hbefore
    have hfirst : Operation.firstFailure (a.conditions now c) = some f := by
      rw [hconditions, Operation.firstFailure_append_of_passing hbefore]
      rfl
    have hfatal : out.1 = .fatal f := Errand.run_of_failing hcounts hnamed hfirst e
    refine ⟨hfatal, ?_⟩
    obtain ⟨hquiet, -⟩ | hasked := hspent
    · exact hquiet.unasked
    · have hmem : (true, f) ∈ a.conditions now c := by
        rw [hconditions]
        exact List.mem_append_right _ (List.mem_cons_self ..)
      have huntold := Errand.ofTransfer_of_mem_conditions hmem
      have htold := hasked.told
      rw [← hout, hfatal] at htold
      cases huntold.symm.trans htold
  · intro hpassing
    have hnone := Operation.firstFailure_eq_none_of_passing hpassing
    obtain ⟨htold, hfails⟩ := Errand.run_of_passing hcounts hnamed hnone e
    refine ⟨?_, hfails⟩
    obtain ⟨hquiet, -⟩ | ⟨-, t, hasked, -⟩ := hspent
    · have huntold := hquiet.untold
      rw [← hout] at huntold
      cases huntold.symm.trans htold
    · rw [show asked = [t] from hasked]
      rfl

/-- An upload for which nothing is right, and less and less is wrong. -/
theorem failures_in_order_of_upload :
    let client (key : String) (executors : Nat) : Client Unit Replay :=
      ⟨⟨⟨"http://h", "t", "a", key, ""⟩, {}, {}, .new 1 executors, 60⟩, {}, {}⟩
    let upload (name : String) : Errand :=
      .operate (.uploadNewFile ⟨"b", 0⟩ name "missing" "text/plain" "" false)
    let out (name key : String) (executors : Nat) :=
      ((upload name).run Replay.engine 0 (client key executors)).1
    out "" "" 0 = .fatal .invalidArgument ∧ out "n" "" 0 = .fatal .noAppKey ∧
      out "n" "k" 0 = .fatal .poolExhausted ∧ out "n" "k" 1 = .fatal .localFile := by
  intro client upload out
  have hpool (key : String) (executors : Nat) :
      (Lending.run [Lending.Action.make executors]).pools[0]?
        = some (client key executors).service.pool := rfl
  have hnamed (name : String) (earlier : Option Draft) (build : Draft → Request) (what : Job)
      (timeout : Int) : upload name ≠ .request earlier build what timeout := by
    intro h
    injection h
  have hfirst (name key : String) (executors place : Nat) (f : Failure)
      (hplace : (upload name).conditions 0 (client key executors)
        = ((upload name).conditions 0 (client key executors)).take place
          ++ (true, f) :: ((upload name).conditions 0 (client key executors)).drop (place + 1))
      (hbefore : ∀ p ∈ ((upload name).conditions 0 (client key executors)).take place,
        p.1 = false) : out name key executors = .fatal f :=
    ((failures_in_order Replay.engine 0 (upload name) (hnamed name) (client key executors)
      (hpool key executors)).1 _ f _ hplace hbefore).1
  exact ⟨hfirst _ _ _ 0 _ (by decide +kernel) (by decide +kernel),
    hfirst _ _ _ 5 _ (by decide +kernel) (by decide +kernel),
    hfirst _ _ _ 6 _ (by decide +kernel) (by decide +kernel),
    hfirst _ _ _ 7 _ (by decide +kernel) (by decide +kernel)⟩

end AppBackend
