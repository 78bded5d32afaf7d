import AppBackend.Proofs.Client.Traffic

/-!
# Logging out

A logout takes what it needs from the session, clears it, and only then asks the server. Main
statements: `logoutBy_congr`, it depends on its request only by what is done with it in flight; and
`logout_always_logs_out`, whatever becomes of the request, nobody is logged in any more.
-/

namespace AppBackend

variable {ε ω α : Type}

/-! ### The request of a logout -/

namespace Client

variable {now : Int} {c : Client ε ω}

theorem token_of_isLoggedIn (h : c.isLoggedIn now = true) : (c.session now).token ≠ "" := by
  rw [isLoggedIn_eq, Session.isValid, Bool.and_eq_true, bne_iff_ne] at h
  exact h.1

theorem logoutDraft_eq (h : c.service.credentials.missing? = none) :
    c.logoutDraft now = { c.service.draft now with method := .delete, path := loginPath } :=
  Draft.applyAll_of_complete (d := c.service.draft now) h _

theorem url_logoutDraft (h : c.service.credentials.missing? = none) :
    (c.logoutDraft now).build.url = (c.service.draft now).url ++ loginPath := by
  rw [logoutDraft_eq h]
  simp only [Draft.build, Draft.url, Service.draft, Draft.query, List.filter_nil,
    String.ofList_nil, String.append_empty]

/-- The headers of a logout, the session among them. -/
def logoutHeaders (now : Int) (c : Client ε ω) : Pairs :=
  [(HeaderName.appId, c.service.credentials.appId),
    (HeaderName.appKey, c.service.credentials.appKey),
    (HeaderName.sessionToken, (c.session now).token), (HeaderName.userAgent, defaultUserAgent)]

theorem headerPairs_logoutDraft (h : c.service.credentials.missing? = none)
    (hin : c.isLoggedIn now = true) : (c.logoutDraft now).headerPairs = c.logoutHeaders now := by
  have hpairs : (c.logoutDraft now).headerPairs = (c.logoutHeaders now).filter Draft.isFull := by
    rw [logoutDraft_eq h]
    rfl
  have hfull {name value : String} (hname : name ≠ "") (hvalue : value ≠ "") :
      Draft.isFull (name, value) = true := Draft.isFull_iff.2 ⟨hname, hvalue⟩
  obtain ⟨hid, hkey⟩ := Credentials.full_of_complete h
  rw [hpairs, List.filter_eq_self]
  intro p hp
  simp only [logoutHeaders, List.mem_cons, List.not_mem_nil, or_false] at hp
  rcases hp with rfl | rfl | rfl | rfl
  · exact hfull (by decide) hid
  · exact hfull (by decide) hkey
  · exact hfull (by decide) (token_of_isLoggedIn hin)
  · exact hfull (by decide) (by decide)

theorem headers_logoutDraft (h : c.service.credentials.missing? = none)
    (hin : c.isLoggedIn now = true) :
    (c.logoutDraft now).build.headers =
      (c.logoutHeaders now).map fun p => Request.headerLine p.1 p.2 := by
  rw [Draft.build, headerPairs_logoutDraft h hin]

/-- What a logout sends: the login is to be deleted, with the token of the session. -/
theorem build_logoutDraft (h : c.service.credentials.missing? = none)
    (hin : c.isLoggedIn now = true) :
    (c.logoutDraft now).build =
      { method := .delete
        url := (c.service.draft now).url ++ loginPath
        headers := (c.logoutHeaders now).map fun p => Request.headerLine p.1 p.2
        proxy := c.service.credentials.proxy
        options := c.service.options } := by
  rw [← url_logoutDraft h, ← headers_logoutDraft h hin, logoutDraft_eq h]
  rfl

/-! ### In flight -/

/-- The request of a logout, if it is sent, and the client as it is while the request is in
flight. -/
def logoutFlights (e : Engine ε ω) (now : Int) (c : Client ε ω) : List (Request × Client ε ω) :=
  (c.logoutBy e now (fun _ => []) fun x r c => ([(r, c)], x, c)).1

/-- It matters only what is done with a request that is in flight, and how the client is then. -/
theorem logoutBy_congr {e : Engine ε ω} {refuse : Failure → α}
    {body body' : Executor ε → Request → Client ε ω → α × Executor ε × Client ε ω}
    (h : ∀ x, ∀ f ∈ c.logoutFlights e now, body x f.1 f.2 = body' x f.1 f.2) :
    c.logoutBy e now refuse body = c.logoutBy e now refuse body' := by
  cases hin : c.isLoggedIn now with
  | false => rw [logoutBy_of_not_isLoggedIn hin, logoutBy_of_not_isLoggedIn hin]
  | true =>
    rw [logoutFlights, logoutBy_of_isLoggedIn hin] at h
    rw [logoutBy_of_isLoggedIn hin, logoutBy_of_isLoggedIn hin]
    cases hm : (c.logoutDraft now).missing? with
    | some f => rw [execute_of_missing hm, execute_of_missing hm]
    | none =>
      cases ha : c.clearSession.service.pool.acquire? e.fresh with
      | none => rw [execute_of_exhausted hm ha, execute_of_exhausted hm ha]
      | some loan =>
        -- the one flight is just what either body is given
        obtain ⟨x, pool⟩ := loan
        rw [execute_of_loan hm ha] at h
        rw [execute_of_loan hm ha, execute_of_loan hm ha]
        have hbody := h x _ (List.mem_singleton_self _)
        dsimp only at hbody ⊢
        rw [hbody]

theorem classify_ne_notLoggedIn (ending : Except TransferError Unit) (r : Response) :
    classify ending r ≠ .fatal .notLoggedIn := by
  intro h
  have htold := tellsContact_classify ending r
  rw [h] at htold
  cases htold

/-- What becomes of a logout of a session that is there. -/
theorem logout_cases (e : Engine ε ω) (timeout : Int) (hin : c.isLoggedIn now = true) :
    let seen := c.recorded.logout e.recorded now timeout
    let t : Transfer :=
      ⟨(c.logoutDraft now).build, effectiveTimeout (c.service.timeoutFor timeout), none⟩
    seen.1 ≠ .fatal .notLoggedIn ∧ seen.2.service.session = {} ∧
    (seen.2.traffic = [] ∧ c.logoutFlights e now = [] ∨
      c.service.credentials.missing? = none ∧
      ∃ x c', seen.2.traffic = [(t, x)] ∧ c.logoutFlights e now = [(t.request, c')] ∧
        c'.service.session = {}) := by
  intro seen t
  have hseen : seen = concludeLogout (c.recorded.clearSession.send e.recorded
      (c.logoutDraft now) .plain timeout) := logout_of_isLoggedIn (c := c.recorded) hin ..
  rw [logoutFlights, logoutBy_of_isLoggedIn hin, hseen]
  cases hm : (c.logoutDraft now).missing? with
  | some f =>
    rw [send, execute_of_missing hm, execute_of_missing hm]
    refine ⟨fun h => ?_, rfl, .inl ⟨rfl, rfl⟩⟩
    cases h
    cases ofRequest_of_missing hm
  | none =>
    cases ha : c.service.pool.acquire? e.fresh with
    | none =>
      have hplain : c.clearSession.service.pool.acquire? e.fresh = none := ha
      have hrecorded : c.recorded.clearSession.service.pool.acquire? e.recorded.fresh = none := ha
      rw [send, execute_of_exhausted hm hplain, execute_of_exhausted hm hrecorded]
      refine ⟨fun h => ?_, rfl, .inl ⟨rfl, rfl⟩⟩
      cases h
    | some loan =>
      obtain ⟨x, pool⟩ := loan
      have hplain : c.clearSession.service.pool.acquire? e.fresh = some (x, pool) := ha
      have hrecorded : c.recorded.clearSession.service.pool.acquire? e.recorded.fresh
        = some (x, pool) := ha
      rw [send, execute_of_loan hm hplain, execute_of_loan hm hrecorded]
      rw [logoutDraft, Draft.missing?_applyAll] at hm
      refine ⟨fun h => ?_, rfl, .inr ⟨hm, _, _, rfl, rfl, rfl⟩⟩
      exact classify_ne_notLoggedIn _ _ (Outcome.map_eq_fatal_iff.1 h)

/-- After a logout nobody is logged in, and a second one is refused and sends nothing. -/
theorem logout_logout (e : Engine ε ω) (timeout : Int) (c : Client ε ω) {later : Int}
    (hlater : now ≤ later) :
    let out := c.logout e now timeout
    out.2.isLoggedIn later = false ∧ ∀ again,
      (out.2.logout e later again).1 = .fatal .notLoggedIn ∧
      (out.2.recorded.logout e.recorded later again).2.traffic = [] := by
  intro out
  have hout : out.2.isLoggedIn later = false := by
    rw [isLoggedIn_eq, c.session_logout e hlater]
    rfl
  have hrecorded : out.2.recorded.isLoggedIn later = false := hout
  refine ⟨hout, fun again => ?_⟩
  rw [logout_of_not_isLoggedIn hout, logout_of_not_isLoggedIn hrecorded]
  exact ⟨rfl, rfl⟩

end Client

/-- What a logout does depends on its request only by what is done with it in flight. With no valid
session a logout is refused and sends nothing, and only then is it refused for that. Otherwise no
session is left, whatever happens: at most one request is sent, to delete the login, with the token
that there was, and the session is gone already while it is in flight. To log out again is
refused. -/
theorem logout_always_logs_out (e : Engine ε ω) (now timeout : Int) (c : Client ε ω) :
    let out := c.logout e now timeout
    let seen := c.recorded.logout e.recorded now timeout
    let flights := c.logoutFlights e now
    (∀ body, (∀ x, ∀ f ∈ flights, body x f.1 f.2 = Client.job e .plain timeout x f.1 f.2) →
      out = Client.concludeLogout (c.logoutBy e now .fatal body)) ∧
    out = (seen.1, seen.2.unrecorded) ∧
    (out.1 = .fatal .notLoggedIn ↔ c.isLoggedIn now = false) ∧
    (c.isLoggedIn now = false → seen.2.traffic = []) ∧
    (c.isLoggedIn now = true → out.2.service.session = {}) ∧
    seen.2.traffic.length ≤ 1 ∧
    (seen.2.traffic.map fun p => p.1) = (flights.map fun f =>
      ⟨f.1, effectiveTimeout (c.service.timeoutFor timeout), none⟩) ∧
    (∀ f ∈ flights, f.1.method = .delete ∧ f.1.url = (c.service.draft now).url ++ Client.loginPath ∧
      f.1.headers =
        [Request.headerLine HeaderName.appId c.service.credentials.appId,
          Request.headerLine HeaderName.appKey c.service.credentials.appKey,
          Request.headerLine HeaderName.sessionToken (c.session now).token,
          Request.headerLine HeaderName.userAgent defaultUserAgent] ∧
      f.1.body = [] ∧ f.2.service.session = {}) ∧
    ∀ later, now ≤ later → out.2.isLoggedIn later = false ∧ ∀ again,
      (out.2.logout e later again).1 = .fatal .notLoggedIn ∧
      (out.2.recorded.logout e.recorded later again).2.traffic = [] := by
  intro out seen flights
  have hsame : out = (seen.1, seen.2.unrecorded) :=
    c.recorded.logout_recorded e now timeout
  have hagain (later : Int) (hlater : now ≤ later) := c.logout_logout e timeout hlater
  have hout : out.1 = seen.1 ∧ out.2.service = seen.2.service := by
    rw [hsame]
    exact ⟨rfl, rfl⟩
  refine ⟨?_, hsame, ?_⟩
  · intro body hbody
    exact congrArg Client.concludeLogout (Client.logoutBy_congr hbody).symm
  rw [hout.1, hout.2]
  cases hin : c.isLoggedIn now with
  | false =>
    have hseen : seen = _ := Client.logout_of_not_isLoggedIn (c := c.recorded) hin ..
    have hflights : flights = [] :=
      congrArg Prod.fst (Client.logoutBy_of_not_isLoggedIn hin e (fun _ => []) _)
    have htraffic : seen.2.traffic = [] := by rw [hseen]; rfl
    rw [hflights, htraffic]
    refine ⟨?_, fun _ => rfl, nofun, Nat.zero_le 1, rfl, by simp, hagain⟩
    rw [hseen]
    exact iff_of_true rfl rfl
  | true =>
    obtain ⟨hne, hsession, htraffic⟩ := Client.logout_cases e timeout hin
    have hiff : seen.1 = .fatal .notLoggedIn ↔ true = false := iff_of_false hne nofun
    obtain ⟨hnone, hflights⟩ | ⟨hcomplete, x, c', hone, hflights, hmeanwhile⟩ := htraffic
    · rw [show flights = [] from hflights, show seen.2.traffic = [] from hnone]
      exact ⟨hiff, nofun, fun _ => hsession, Nat.zero_le 1, rfl, by simp, hagain⟩
    · rw [show flights = _ from hflights, show seen.2.traffic = _ from hone]
      refine ⟨hiff, nofun, fun _ => hsession, Nat.le_refl 1, rfl, ?_, hagain⟩
      intro f hf
      rw [List.mem_singleton.1 hf, Client.build_logoutDraft hcomplete hin]
      exact ⟨rfl, rfl, rfl, rfl, hmeanwhile⟩

/-- The server answers with an error, or there is no key to ask it with. -/
theorem logout_always_logs_out_of_errors :
    let reply : Exchange := ⟨[.header "HTTP/1.1 500 Broken\r\n"], .ok ()⟩
    let client (key : String) : Client Unit Replay :=
      ⟨⟨⟨"http://h", "t", "a", key, ""⟩, {}, ⟨"token", 9, {}⟩, .new 1 1, 60⟩, {},
        { exchange := reply }⟩
    let out (key : String) := (client key).logout Replay.engine 5 0
    (out "k").1.restError? = some ⟨500, ""⟩ ∧ (out "k").2.service.session = {} ∧
      (out "").1.failure? = some .noAppKey ∧ (out "").2.service.session = {} := by
  intro reply client out
  obtain ⟨-, -, -, -, hanswered, -⟩ := logout_always_logs_out Replay.engine 5 0 (client "k")
  obtain ⟨-, -, -, -, hrefused, -⟩ := logout_always_logs_out Replay.engine 5 0 (client "")
  exact ⟨by decide +kernel, hanswered (by decide), by decide +kernel, hrefused (by decide)⟩

end AppBackend
