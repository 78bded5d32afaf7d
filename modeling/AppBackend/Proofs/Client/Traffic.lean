import AppBackend.Proofs.Client.Contact

/-!
# Traffic

An engine is recorded: beside its backend it keeps the transfers that it was asked for, each with
what it reported. Main statements: `flight_send`, a plain request is refused or it is one transfer,
and its outcome is what that transfer reported; and `login_recorded` and `logout_recorded`, to
record an engine changes nothing.
-/

namespace AppBackend

variable {ε ω α : Type}

/-- The transfers that an engine was asked for, in order, with what it reported. -/
abbrev Traffic := List (Transfer × Exchange)

def Engine.recorded (e : Engine ε ω) : Engine ε (ω × Traffic) where
  fresh := e.fresh
  perform d t x w :=
    let (exchange, x, backend) := e.perform d t x w.1
    (exchange, x, (backend, w.2 ++ [(t, exchange)]))

/-- Failures that any request can be refused with. -/
def Failure.ofRequest : Failure → Bool
  | .noEndpoint | .noTenant | .noAppId | .noAppKey | .poolExhausted => true
  | _ => false

theorem ofRequest_of_missing {d : Draft} {f : Failure} (h : d.missing? = some f) :
    f.ofRequest = true := by
  unfold Draft.missing? Credentials.missing? at h
  repeat' split at h
  all_goals
    cases h
  all_goals rfl

namespace Client

/-- A client whose engine has not been asked for anything yet. -/
def recorded (c : Client ε ω) : Client ε (ω × Traffic) :=
  ⟨c.service, c.site.disk, (c.site.backend, [])⟩

def unrecorded (c : Client ε (ω × Traffic)) : Client ε ω :=
  ⟨c.service, c.site.disk, c.site.backend.1⟩

def traffic (c : Client ε (ω × Traffic)) : Traffic := c.site.backend.2

theorem traffic_setSession (s : Session) (c : Client ε (ω × Traffic)) :
    (c.setSession s).traffic = c.traffic := rfl

/-! ### Plain requests -/

/-- What becomes of a plain request: it is refused and nothing changes, or it is sent, and the
outcome is what the transfer reported. -/
inductive Flight (c : Client ε (ω × Traffic)) (d : Draft) (timeout : Int) :
    Outcome Response × Client ε (ω × Traffic) → Prop where
  | refused {f : Failure} (hf : d.missing? = some f ∨ f = .poolExhausted) :
      Flight c d timeout (.fatal f, c)
  | sent {x : Exchange} {c' : Client ε (ω × Traffic)} (hcomplete : d.missing? = none)
      (htraffic : c'.traffic = c.traffic
        ++ [(⟨d.build, effectiveTimeout (c.service.timeoutFor timeout), none⟩, x)])
      (hsession : c'.service.session = c.service.session) :
      Flight c d timeout (classify x.ending x.toTranscript.response, c')

theorem Flight.of_mem_traffic {c : Client ε (ω × Traffic)} {d : Draft} {timeout : Int}
    {r : Outcome Response × Client ε (ω × Traffic)} (h : Flight c d timeout r)
    {t : Transfer × Exchange} (ht : t ∈ r.2.traffic) :
    t ∈ c.traffic ∨ d.missing? = none ∧ t.1.request = d.build := by
  cases h with
  | refused _ => exact .inl ht
  | sent hcomplete htraffic _ =>
    rw [htraffic, List.mem_append, List.mem_singleton] at ht
    rcases ht with ht | rfl
    · exact .inl ht
    · exact .inr ⟨hcomplete, rfl⟩

theorem Flight.of_fatal {c : Client ε (ω × Traffic)} {d : Draft} {timeout : Int}
    {r : Outcome Response × Client ε (ω × Traffic)} (h : Flight c d timeout r) {f : Failure}
    (hf : r.1 = .fatal f) : f.ofRequest = true ∨ f.ofTransfer = true := by
  cases h with
  | refused hrefused =>
    obtain rfl : _ = f := Outcome.fatal.inj hf
    rcases hrefused with hm | rfl
    · exact .inl (ofRequest_of_missing hm)
    · exact .inl rfl
  | @sent x c' _ _ _ =>
    have htold := tellsContact_classify x.ending x.toTranscript.response
    rw [show classify x.ending x.toTranscript.response = .fatal f from hf] at htold
    exact .inr htold

variable (e : Engine ε ω) (c : Client ε (ω × Traffic))

theorem flight_send (d : Draft) (timeout : Int) :
    Flight c d timeout (c.send e.recorded d .plain timeout) := by
  cases hm : d.missing? with
  | some f =>
    rw [send, execute_of_missing hm]
    exact .refused (.inl hm)
  | none =>
    cases ha : c.service.pool.acquire? e.recorded.fresh with
    | none =>
      rw [send, execute_of_exhausted hm ha]
      exact .refused (.inr rfl)
    | some loan =>
      rw [send, execute_of_loan hm ha]
      exact .sent hm rfl rfl

/-- A request that lacks nothing and finds an executor is sent. -/
theorem traffic_send_of_loan {d : Draft} (hm : d.missing? = none) {x : Executor ε} {pool : Pool ε}
    (hloan : c.service.pool.acquire? e.fresh = some (x, pool)) (timeout : Int) :
    let t : Transfer := ⟨d.build, effectiveTimeout (c.service.timeoutFor timeout), none⟩
    (c.send e.recorded d .plain timeout).2.traffic
      = c.traffic ++ [(t, (e.perform c.site.disk t x.engine c.site.backend.1).1)] := by
  have hrecorded : c.service.pool.acquire? e.recorded.fresh = some (x, pool) := hloan
  intro t
  rw [send, execute_of_loan hm hrecorded]
  rfl

theorem send_recorded (d : Draft) (timeout : Int) :
    let out := c.send e.recorded d .plain timeout
    c.unrecorded.send e d .plain timeout = (out.1, out.2.unrecorded) := by
  cases hm : d.missing? with
  | some f => simp only [send, execute_of_missing hm]
  | none =>
    cases ha : c.service.pool.acquire? e.fresh with
    | none =>
      have hplain : c.unrecorded.service.pool.acquire? e.fresh = none := ha
      have hrecorded : c.service.pool.acquire? e.recorded.fresh = none := ha
      simp only [send, execute_of_exhausted hm hplain, execute_of_exhausted hm hrecorded]
    | some loan =>
      obtain ⟨x, pool⟩ := loan
      have hplain : c.unrecorded.service.pool.acquire? e.fresh = some (x, pool) := ha
      have hrecorded : c.service.pool.acquire? e.recorded.fresh = some (x, pool) := ha
      simp only [send, execute_of_loan hm hplain, execute_of_loan hm hrecorded]
      rfl

/-! ### Logging in and out -/

/-- A login ends the same way for every client, and of the client only the session may change. -/
theorem exists_concludeLogin (now : Int) (o : Outcome Response) :
    ∃ (verdict : Outcome Account) (next : Session → Session), ∀ (ε ω : Type) (c : Client ε ω),
      concludeLogin now (o, c) = (verdict, c.setSession (next c.service.session)) := by
  cases o with
  | success r =>
    simp only [concludeLogin]
    cases Login.ofObject? r.jsonObject with
    | none => exact ⟨.fatal .noStatus, id, fun _ _ _ => rfl⟩
    | some l =>
      let next := l.toSession.refresh now
      exact ⟨.success (next.view now).account, fun _ => next, fun _ _ _ => rfl⟩
  | rest error => exact ⟨.rest error, id, fun _ _ _ => rfl⟩
  | fatal f => exact ⟨.fatal f, id, fun _ _ _ => rfl⟩

theorem concludeLogin_recorded (now : Int) (o : Outcome Response) :
    let out := concludeLogin now (o, c)
    concludeLogin now (o, c.unrecorded) = (out.1, out.2.unrecorded) := by
  obtain ⟨verdict, next, hconclude⟩ := exists_concludeLogin now o
  rw [hconclude, hconclude]
  rfl

theorem login_recorded (now : Int) (username email password : String) (timeout : Int) :
    let out := c.login e.recorded now username email password timeout
    c.unrecorded.login e now username email password timeout = (out.1, out.2.unrecorded) := by
  intro out
  by_cases harg : (username = "" ∧ email = "") ∨ password = ""
  · rw [show out = _ from login_of_refused harg .., login_of_refused harg]
  · rw [show out = _ from login_of_accepted harg .., login_of_accepted harg]
    have hsend := c.send_recorded e
      ((c.service.draft now).applyAll (loginSteps username email password)) timeout
    rw [request, request]
    exact (congrArg _ hsend).trans (concludeLogin_recorded ..)

theorem logout_recorded (now timeout : Int) :
    let out := c.logout e.recorded now timeout
    c.unrecorded.logout e now timeout = (out.1, out.2.unrecorded) := by
  intro out
  cases hin : c.isLoggedIn now with
  | false =>
    have hplain : c.unrecorded.isLoggedIn now = false := hin
    rw [show out = _ from logout_of_not_isLoggedIn hin .., logout_of_not_isLoggedIn hplain]
    rfl
  | true =>
    have hplain : c.unrecorded.isLoggedIn now = true := hin
    rw [show out = _ from logout_of_isLoggedIn hin .., logout_of_isLoggedIn hplain]
    exact congrArg concludeLogout (c.clearSession.send_recorded e (c.logoutDraft now) timeout)

end Client

/-! ### Plans -/

namespace Plan
variable {e : Engine ε ω} {now : Int} {c : Client ε ω} {p : Plan}

theorem run_recorded (hp : p.job = .plain) :
    let out := p.run e.recorded now c.recorded
    p.run e now c = (out.1, out.2.unrecorded) := by
  unfold run
  cases p.refused? with
  | some f => rfl
  | none =>
    dsimp only
    rw [hp]
    exact c.recorded.send_recorded e ((c.service.draft now).applyAll p.steps) p.timeout

/-- A plan for a plain request sends this request or nothing. -/
theorem of_mem_traffic (hp : p.job = .plain) {t : Transfer × Exchange}
    (ht : t ∈ (p.run e.recorded now c.recorded).2.traffic) :
    (c.service.draft now).missing? = none ∧
      t.1.request = ((c.service.draft now).applyAll p.steps).build := by
  unfold run at ht
  split at ht
  · cases ht
  · rw [hp, Client.request] at ht
    rcases (Client.flight_send e _ _ _).of_mem_traffic ht with ht | ⟨hcomplete, hbuild⟩
    · cases ht
    · rw [Draft.missing?_applyAll] at hcomplete
      exact ⟨hcomplete, hbuild⟩

/-- A plan whose arguments are right sends one request, if nothing is missing. -/
theorem exists_traffic_of_free (hp : p.job = .plain) (hr : p.refused? = none)
    (hcomplete : c.service.credentials.missing? = none)
    (hfree : c.service.pool.acquire? e.fresh ≠ none) :
    ∃ t, (p.run e.recorded now c.recorded).2.traffic = [t] := by
  obtain ⟨⟨x, pool⟩, hloan⟩ := Option.ne_none_iff_exists'.1 hfree
  have hm : ((c.service.draft now).applyAll p.steps).missing? = none := by
    rw [Draft.missing?_applyAll]
    exact hcomplete
  have hsent := Client.traffic_send_of_loan e c.recorded hm hloan p.timeout
  rw [run, hr]
  dsimp only
  rw [hp, Client.request]
  exact ⟨_, hsent⟩

end Plan
end AppBackend
