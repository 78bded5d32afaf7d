import AppBackend.Proofs.Json.RoundTrip
import AppBackend.Proofs.Server.ConditionalWrites
import AppBackend.Proofs.Server.Locality
import Mathlib.Data.List.Induction

/-!
# Who is let in

The gate looks at the store, and what sessions the store has is told by the calls before: there is a
session if a login told its token and no logout that was let in has named it since. Main statement:
`access_follows_history`, said of every run of calls from the empty server.
-/

namespace AppBackend.Server

/-! ### Logins and logouts -/

def Call.NamesApplication (c : Call) : Prop :=
  c.header? HeaderName.appId = some appId ∧ c.header? HeaderName.appKey = some appKey

instance (c : Call) : Decidable c.NamesApplication := inferInstanceAs (Decidable (_ ∧ _))

/-- What a login tells. -/
def loginFields (token : String) (expiry : Int) : Json.Fields :=
  (accountFields.insert "sessionToken" (.str token)).insert "expire" (.int expiry)

/-- What a handler's answer comes to; a refusal leaves the store as it was. -/
def outcome (s : Store) : Answer → Reply × Store
  | .ok a => a
  | .error refusal => (refusal.reply, s)

namespace Backend

variable (fresh : Nat → Fresh) (b : Backend)

/-- A login that is granted, and whose reply tells the token. -/
structure Opens (c : Call) (token : String) : Prop where
  asked : c.action? = some .logIn
  told : (b.answer fresh c).1
    = .json 200 (.obj (loginFields token ((fresh b.calls).now.second + sessionLifetime)))

/-- A logout that is let in and names the token. -/
structure Closes (c : Call) (token : String) : Prop where
  asked : c.action? = some .logOut
  letIn : gate b.store (fresh b.calls).now.second c = .ok ()
  named : c.header? HeaderName.sessionToken = some token

/-- One of the calls from the empty server, made at the time `since`, has told the token in a login,
and no logout since has named it. -/
def Issued (calls : List Call) (token : String) (since : Int) : Prop :=
  ∃ before login after, calls = before ++ login :: after ∧
    Opens fresh (answerAll fresh before {}) login token ∧
    (fresh before.length).now.second = since ∧
    ∀ between logout rest, after = between ++ logout :: rest →
      ¬ Closes fresh (answerAll fresh (before ++ login :: between) {}) logout token

end Backend

theorem loginFields_eq (token : String) (expiry : Int) :
    loginFields token expiry =
      [("_id", .str userId), ("createdAt", .str "2017-03-07T08:49:58.000Z"),
        ("email", .str email), ("expire", .int expiry), ("groups", .arr [.str "staff"]),
        ("options", .obj [("lang", .str "en")]), ("sessionToken", .str token),
        ("updatedAt", .str "2017-03-07T08:49:58.000Z"), ("username", .str username)] := by
  rfl

theorem token_of_told {token other : String} {expiry : Int}
    (h : Reply.json 200 (.obj (loginFields token expiry))
      = .json 200 (.obj (loginFields other expiry))) : token = other := by
  -- the bytes decode to the tokens of the object, and one of those is the token
  have hbytes : (Json.obj (loginFields token expiry)).bytes
      = (Json.obj (loginFields other expiry)).bytes := congrArg Reply.body h
  have htokens := congrArg (fun bs => Json.tokens (Utf8.decode bs)) hbytes
  simp only [Json.bytes, Utf8.decode_encode, Json.tokens_write, loginFields_eq] at htokens
  simpa [Json.tokensOf, Json.tokensOfMembers, Json.tokensOfItems] using htokens

/-! ### Calls that are let in -/

section
variable {s : Store} {f : Fresh} {c : Call} {r : Route}

theorem answer_of_letIn (hr : Route.ofPath? c.path = some r)
    (hgate : gate s f.now.second c = .ok ()) (htakes : r.takes c.method = true) :
    answer s f c =
      let handled := outcome s (r.decoded >>= Route.perform s f c)
      (r.sent c handled.1, handled.2) := by
  have hroute : r.answer s f c = r.decoded >>= Route.perform s f c := by
    rw [Route.answer, hgate, if_pos htakes]
    rfl
  rw [answer, hr]
  dsimp only
  rw [hroute]
  cases r.decoded >>= Route.perform s f c <;> rfl

theorem Route.eq_login_of_action? {method : String} {a : Action} (h : r.action? method = some a)
    (hlog : a = .logIn ∨ a = .logOut) : r = .login ∧ (method = "POST" ∨ method = "DELETE") := by
  revert h
  fun_cases action? r method <;> intro h
  case case1 => exact ⟨rfl, Or.inl rfl⟩
  case case2 => exact ⟨rfl, Or.inr rfl⟩
  case case18 => cases h
  all_goals
    rw [← Option.some.inj h] at hlog
    rcases hlog with hlog | hlog <;> cases hlog

theorem Route.eq_login_of_decoded (h : r.decoded = .ok .login) : r = .login := by
  cases r with
  | login => rfl
  | bucketObjects b | bucketFiles b =>
    obtain ⟨b', -, h⟩ := exists_of_map_eq_ok h
    cases h
  | object b key | file b key =>
    obtain ⟨b', -, h⟩ := exists_of_bind_eq_ok h
    obtain ⟨key', -, h⟩ := exists_of_bind_eq_ok h
    cases h
  | custom n rest =>
    obtain ⟨n', rest', h⟩ := Route.custom_of_decoded h
    cases h

/-- The answer to a login or a logout that is let in is the handler's. -/
theorem answer_of_logs {a : Action} (ha : c.action? = some a) (hlog : a = .logIn ∨ a = .logOut)
    (hgate : gate s f.now.second c = .ok ()) : answer s f c = outcome s (a.run s f c) := by
  obtain ⟨raw, hraw, h⟩ := Option.bind_eq_some_iff.1 ha
  obtain ⟨r', hr', haction⟩ := Option.bind_eq_some_iff.1 h
  obtain ⟨rfl, hmethod⟩ := Route.eq_login_of_action? haction hlog
  obtain rfl := Route.eq_login_of_decoded (eq_ok_of_toOption hr')
  have htakes : Route.login.takes c.method = true := by
    rcases hmethod with h | h <;> rw [h] <;> rfl
  have hsent (reply : Reply) : Route.login.sent c reply = reply := by
    rcases hmethod with h | h <;> simp [Route.sent, Route.takes, Route.methods?, h]
  have hperform : (Route.login.decoded >>= Route.perform s f c) = a.run s f c := by
    change Route.perform s f c .login = a.run s f c
    rw [Route.perform, haction]
  rw [answer_of_letIn hraw hgate htakes, hperform]
  dsimp only
  rw [hsent]

theorem eq_of_logIn {a : Reply × Store} (h : logIn s f c = .ok a) :
    a = (.json 200 (.obj (loginFields f.first (f.now.second + sessionLifetime))),
      s.addSession f.first (f.now.second + sessionLifetime)) := by
  obtain ⟨login, -, h⟩ := exists_of_bind_eq_ok h
  split at h
  · cases h
  · exact (Except.ok.inj h).symm

theorem answer_of_notLetIn {refusal : Refusal} {a : Action} (ha : c.action? = some a)
    (hgate : gate s f.now.second c = .error refusal) :
    400 ≤ (answer s f c).1.status ∧ (answer s f c).2 = s := by
  obtain ⟨raw, hraw, -⟩ := Option.bind_eq_some_iff.1 ha
  rw [answer_of_refused hraw hgate]
  exact ⟨by rw [Route.status_sent]; exact refusal.le_status, rfl⟩

theorem answer_of_logIn (ha : c.action? = some .logIn) :
    400 ≤ (answer s f c).1.status ∧ (answer s f c).2 = s ∨
      answer s f c = (.json 200 (.obj (loginFields f.first (f.now.second + sessionLifetime))),
        s.addSession f.first (f.now.second + sessionLifetime)) := by
  cases hgate : gate s f.now.second c with
  | error refusal => exact Or.inl (answer_of_notLetIn ha hgate)
  | ok u =>
    rw [answer_of_logs ha (Or.inl rfl) hgate]
    cases hlogin : Action.logIn.run s f c with
    | error refusal => exact Or.inl ⟨refusal.le_status, rfl⟩
    | ok a => exact Or.inr (eq_of_logIn hlogin)

theorem answer_of_logOut (ha : c.action? = some .logOut) :
    (answer s f c).2 = s ∧
        (gate s f.now.second c ≠ .ok () ∨ c.header? HeaderName.sessionToken = none) ∨
      gate s f.now.second c = .ok () ∧ ∃ token, c.header? HeaderName.sessionToken = some token ∧
        (answer s f c).2 = s.removeSession token := by
  cases hgate : gate s f.now.second c with
  | error refusal => exact Or.inl ⟨(answer_of_notLetIn ha hgate).2, Or.inl nofun⟩
  | ok u =>
    rw [answer_of_logs ha (Or.inr rfl) hgate, Action.run, logOut]
    cases c.header? HeaderName.sessionToken with
    | none => exact Or.inl ⟨rfl, Or.inr rfl⟩
    | some token => exact Or.inr ⟨rfl, token, rfl, rfl⟩

end

/-! ### Sessions after one call -/

theorem Store.session_of_held? {s s' : Store} {token : String}
    (h : s'.held? (.session token) = s.held? (.session token)) :
    s'.sessions.get? token = s.sessions.get? token :=
  Option.map_injective (fun _ _ => Held.session.inj) h

theorem logs_of_place? {f : Fresh} {c : Call} {token : String}
    (h : c.place? f = some (.session token)) :
    c.action? = some .logIn ∨ c.action? = some .logOut := by
  obtain ⟨a, ha, h⟩ := Option.bind_eq_some_iff.1 h
  cases a with
  | logIn => exact Or.inl ha
  | logOut => exact Or.inr ha
  | _ => cases h

namespace Backend

variable {fresh : Nat → Fresh} {calls : List Call} {c : Call} {token : String} {since : Int}

theorem answer_fst (b : Backend) :
    (b.answer fresh c).1 = (Server.answer b.store (fresh b.calls) c).1 := rfl

theorem store_answer (b : Backend) :
    (b.answer fresh c).2.store = (Server.answer b.store (fresh b.calls) c).2 := rfl

theorem Opens.first_eq {b : Backend} (h : Opens fresh b c token) :
    (fresh b.calls).first = token := by
  obtain ⟨hstatus, -⟩ | heq := answer_of_logIn (s := b.store) (f := fresh b.calls) h.asked
  · have htold : (Server.answer b.store (fresh b.calls) c).1.status = 200 :=
      congrArg Reply.status h.told
    omega
  · have htold := h.told
    rw [answer_fst, heq] at htold
    exact token_of_told htold

/-- What a call makes of the session of a token: it opens it, it closes it, or it leaves it. -/
theorem session_answer (fresh : Nat → Fresh) (b : Backend) (c : Call) (token : String) :
    let after := (b.answer fresh c).2.store.sessions.get? token
    Opens fresh b c token ∧ after = some ((fresh b.calls).now.second + sessionLifetime) ∨
      Closes fresh b c token ∧ after = none ∨
      ¬ Opens fresh b c token ∧ ¬ Closes fresh b c token ∧
        after = b.store.sessions.get? token := by
  intro after
  by_cases hin : c.action? = some .logIn
  · have hcloses : ¬ Closes fresh b c token := fun h => by cases hin.symm.trans h.asked
    obtain ⟨hstatus, hstore⟩ | heq := answer_of_logIn (s := b.store) (f := fresh b.calls) hin
    · refine Or.inr (Or.inr ⟨fun h => ?_, hcloses, congrArg (·.sessions.get? token) hstore⟩)
      have htold : (Server.answer b.store (fresh b.calls) c).1.status = 200 :=
        congrArg Reply.status h.told
      omega
    have hafter : after = if (fresh b.calls).first = token then
        some ((fresh b.calls).now.second + sessionLifetime) else b.store.sessions.get? token :=
      (congrArg (·.2.sessions.get? token) heq).trans (Store.session_addSession ..)
    by_cases hfirst : (fresh b.calls).first = token
    · rw [if_pos hfirst] at hafter
      refine Or.inl ⟨⟨hin, ?_⟩, hafter⟩
      rw [answer_fst, heq, hfirst]
    · rw [if_neg hfirst] at hafter
      exact Or.inr (Or.inr ⟨fun h => hfirst h.first_eq, hcloses, hafter⟩)
  by_cases hout : c.action? = some .logOut
  · have hopens : ¬ Opens fresh b c token := fun h => hin h.asked
    obtain ⟨hstore, hwhy⟩ | ⟨hgate, named, hnamed, hstore⟩ :=
      answer_of_logOut (s := b.store) (f := fresh b.calls) hout
    · refine Or.inr (Or.inr ⟨hopens, fun h => ?_, congrArg (·.sessions.get? token) hstore⟩)
      rcases hwhy with hgate | hnone
      · exact hgate h.letIn
      · cases hnone.symm.trans h.named
    have hafter : after = if named = token then none else b.store.sessions.get? token :=
      (congrArg (·.sessions.get? token) hstore).trans (Store.session_removeSession ..)
    by_cases hsame : named = token
    · rw [if_pos hsame] at hafter
      exact Or.inr (Or.inl ⟨⟨hout, hgate, by rw [hnamed, hsame]⟩, hafter⟩)
    · rw [if_neg hsame] at hafter
      exact Or.inr (Or.inr ⟨hopens,
        fun h => hsame (Option.some.inj (hnamed.symm.trans h.named)), hafter⟩)
  · refine Or.inr (Or.inr ⟨fun h => hin h.asked, fun h => hout h.asked, ?_⟩)
    exact Store.session_of_held? (held?_answer fun hplace => (logs_of_place? hplace).elim hin hout)

/-! ### Sessions after a run -/

theorem answerAll_concat (calls : List Call) (c : Call) (b : Backend) :
    b.answerAll fresh (calls ++ [c]) = ((b.answerAll fresh calls).answer fresh c).2 := by
  rw [answerAll, List.foldl_append]
  rfl

theorem calls_answerAll (calls : List Call) (b : Backend) :
    (b.answerAll fresh calls).calls = b.calls + calls.length := by
  induction calls generalizing b with
  | nil => rfl
  | cons c calls ih =>
    rw [answerAll, List.foldl_cons, ← answerAll, ih, List.length_cons]
    change b.calls + 1 + calls.length = b.calls + (calls.length + 1)
    omega

theorem calls_of_empty (calls : List Call) : (answerAll fresh calls {}).calls = calls.length := by
  rw [calls_answerAll]
  exact Nat.zero_add _

theorem issued_concat :
    Issued fresh (calls ++ [c]) token since ↔
      Opens fresh (answerAll fresh calls {}) c token ∧ (fresh calls.length).now.second = since ∨
        Issued fresh calls token since ∧ ¬ Closes fresh (answerAll fresh calls {}) c token := by
  constructor
  -- by the end of what follows the login: nothing, so that it is the last call, or the last call
  · rintro ⟨before, login, after, hsplit, hopens, hsince, hclosed⟩
    obtain rfl | ⟨after, last, rfl⟩ := List.eq_nil_or_concat after
    · obtain ⟨rfl, hlast⟩ := List.append_inj' hsplit rfl
      obtain rfl : c = login := List.singleton_inj.1 hlast
      exact Or.inl ⟨hopens, hsince⟩
    · rw [List.concat_eq_append, ← List.cons_append, ← List.append_assoc] at hsplit
      obtain ⟨rfl, hlast⟩ := List.append_inj' hsplit rfl
      obtain rfl : c = last := List.singleton_inj.1 hlast
      refine Or.inr ⟨⟨before, login, after, rfl, hopens, hsince, ?_⟩, ?_⟩
      · rintro between logout rest rfl
        exact hclosed between logout (rest ++ [c]) (by simp)
      · exact hclosed after c [] (by simp)
  · rintro (⟨hopens, hsince⟩ | ⟨⟨before, login, after, rfl, hopens, hsince, hclosed⟩, hlast⟩)
    · exact ⟨calls, c, [], rfl, hopens, hsince, by simp⟩
    · refine ⟨before, login, after ++ [c], by simp, hopens, hsince, ?_⟩
      intro between logout rest hsplit
      obtain rfl | ⟨rest, last, rfl⟩ := List.eq_nil_or_concat rest
      · obtain ⟨rfl, hend⟩ := List.append_inj' hsplit rfl
        obtain rfl : c = logout := List.singleton_inj.1 hend
        exact hlast
      · rw [List.concat_eq_append, ← List.cons_append, ← List.append_assoc] at hsplit
        obtain ⟨rfl, -⟩ := List.append_inj' hsplit rfl
        exact hclosed between logout rest rfl

theorem Issued.exists_call (h : Issued fresh calls token since) :
    ∃ n < calls.length, (fresh n).first = token := by
  obtain ⟨before, login, after, rfl, hopens, -, -⟩ := h
  have hfirst := hopens.first_eq
  rw [calls_of_empty] at hfirst
  exact ⟨before.length, by simp, hfirst⟩

/-- The store has a session if a login told its token and it was not closed since. -/
theorem session_answerAll (hfresh : Function.Injective fun n => (fresh n).first)
    (calls : List Call) (token : String) (expiry : Int) :
    (answerAll fresh calls {}).store.sessions.get? token = some expiry ↔
      ∃ since, Issued fresh calls token since ∧ expiry = since + sessionLifetime := by
  induction calls using List.reverseRecOn with
  | nil =>
    refine ⟨nofun, ?_⟩
    rintro ⟨since, ⟨before, login, after, hsplit, -⟩, -⟩
    simp at hsplit
  | append_singleton calls c ih =>
    simp only [issued_concat, answerAll_concat]
    obtain ⟨hopens, hafter⟩ | ⟨hcloses, hafter⟩ | ⟨hopens, hcloses, hafter⟩ :=
      session_answer fresh (answerAll fresh calls {}) c token
    · rw [hafter, calls_of_empty]
      constructor
      · intro h
        exact ⟨_, Or.inl ⟨hopens, rfl⟩, (Option.some.inj h).symm⟩
      · rintro ⟨since, ⟨-, rfl⟩ | ⟨hissued, -⟩, rfl⟩
        · rfl
        · -- the token would be found new by two calls
          obtain ⟨n, hn, hfirst⟩ := hissued.exists_call
          have hlast := hopens.first_eq
          rw [calls_of_empty] at hlast
          have := hfresh (hfirst.trans hlast.symm)
          omega
    · rw [hafter]
      refine ⟨nofun, ?_⟩
      rintro ⟨since, ⟨hopens, -⟩ | ⟨-, hnot⟩, -⟩
      · cases hopens.asked.symm.trans hcloses.asked
      · exact absurd hcloses hnot
    · rw [hafter, ih]
      simp [hopens, hcloses]

end Backend

/-! ### The gate -/

section
variable {c : Call} {r : Route}

/-- Why a call is turned away: for its application, or else for its session. -/
def Call.refusal (c : Call) : Refusal :=
  if c.NamesApplication then .deadSession else .wrongApplication

theorem gate_cases (s : Store) (now : Int) (c : Call) :
    gate s now c = .ok () ∧ c.NamesApplication ∧
        (∀ token, c.header? HeaderName.sessionToken = some token → s.isLive now token = true) ∨
      gate s now c = .error c.refusal ∧ (c.NamesApplication →
        ∃ token, c.header? HeaderName.sessionToken = some token ∧ s.isLive now token = false) := by
  by_cases happ : c.NamesApplication
  · have hwrong : ¬ (c.header? HeaderName.appId ≠ some appId ∨
        c.header? HeaderName.appKey ≠ some appKey) := by
      rintro (h | h)
      · exact h happ.1
      · exact h happ.2
    rw [gate, if_neg hwrong, Call.refusal, if_pos happ]
    cases c.header? HeaderName.sessionToken with
    | none => exact Or.inl ⟨rfl, happ, nofun⟩
    | some token =>
      cases hlive : s.isLive now token with
      | true =>
        refine Or.inl ⟨if_pos hlive, happ, ?_⟩
        rintro _ ⟨⟩
        exact hlive
      | false => exact Or.inr ⟨by simp [hlive], fun _ => ⟨token, rfl, hlive⟩⟩
  · have hwrong : c.header? HeaderName.appId ≠ some appId ∨
        c.header? HeaderName.appKey ≠ some appKey := by
      rwa [Call.NamesApplication, Classical.not_and_iff_not_or_not] at happ
    rw [gate, if_pos hwrong, Call.refusal, if_neg happ]
    exact Or.inr ⟨rfl, fun h => absurd h happ⟩

theorem gate_iff {s : Store} {now : Int} :
    gate s now c = .ok () ↔ c.NamesApplication ∧
      ∀ token, c.header? HeaderName.sessionToken = some token → s.isLive now token = true := by
  obtain ⟨hgate, happ, hlive⟩ | ⟨hgate, hdead⟩ := gate_cases s now c
  · exact ⟨fun _ => ⟨happ, hlive⟩, fun _ => hgate⟩
  · rw [hgate]
    refine ⟨nofun, ?_⟩
    rintro ⟨happ, hlive⟩
    obtain ⟨token, htoken, hnot⟩ := hdead happ
    rw [hlive token htoken] at hnot
    cases hnot

theorem answer_of_refusal {s : Store} {f : Fresh} (hr : Route.ofPath? c.path = some r)
    (hgate : gate s f.now.second c ≠ .ok ()) : answer s f c = (r.sent c c.refusal.reply, s) := by
  obtain ⟨hok, -⟩ | ⟨hrefused, -⟩ := gate_cases s f.now.second c
  · exact absurd hok hgate
  · exact answer_of_refused hr hrefused

theorem Call.status_refusal (c : Call) : c.refusal.reply.status = 401 := by
  rw [refusal]
  split <;> rfl

theorem Route.body_sent (c : Call) (r : Route) (reply : Reply) :
    (r.sent c reply).body = if c.method = "HEAD" then [] else reply.body := by
  unfold sent
  split <;> split <;> rfl

/-- Who is let in after any calls from the empty server: a call that names the application, and no
session or one that a login has told less than an hour ago and no logout has closed since. Its
handler answers it. Any other call gets a refusal that depends on nothing but what is wrong with it,
and changes nothing; if it has asked for the head only, it gets no body. -/
theorem access_follows_history {fresh : Nat → Fresh}
    (hfresh : Function.Injective fun n => (fresh n).first) (calls : List Call)
    (hr : Route.ofPath? c.path = some r) :
    let b := Backend.answerAll fresh calls {}
    let now := (fresh b.calls).now.second
    (gate b.store now c = .ok () ↔ c.NamesApplication ∧
      (c.header? HeaderName.sessionToken = none ∨
        ∃ token since, c.header? HeaderName.sessionToken = some token ∧
          Backend.Issued fresh calls token since ∧ now < since + 3600)) ∧
    (gate b.store now c = .ok () → r.takes c.method = true →
      let handled := outcome b.store (r.decoded >>= Route.perform b.store (fresh b.calls) c)
      (b.answer fresh c).1 = r.sent c handled.1 ∧ (b.answer fresh c).2.store = handled.2) ∧
    (gate b.store now c ≠ .ok () →
      (b.answer fresh c).1.status = 401 ∧
      (b.answer fresh c).1.body = (if c.method = "HEAD" then [] else c.refusal.reply.body) ∧
      (b.answer fresh c).2.store = b.store) ∧
    ∀ (s s' : Store) (f f' : Fresh), f.now.second = f'.now.second →
      (∀ token, s.isLive f.now.second token = s'.isLive f'.now.second token) →
      gate s f.now.second c ≠ .ok () → (answer s f c).1 = (answer s' f' c).1 := by
  intro b now
  refine ⟨?_, fun hgate htakes => ?_, fun hgate => ?_, fun s s' f f' hnow hsame hgate => ?_⟩
  · have hlive (token : String) : b.store.isLive now token = true ↔
        ∃ since, Backend.Issued fresh calls token since ∧ now < since + 3600 := by
      simp only [Store.isLive_iff, b, Backend.session_answerAll hfresh]
      constructor
      · rintro ⟨expiry, ⟨since, hissued, rfl⟩, hnow⟩
        exact ⟨since, hissued, hnow⟩
      · rintro ⟨since, hissued, hnow⟩
        exact ⟨_, ⟨since, hissued, rfl⟩, hnow⟩
    rw [gate_iff]
    refine and_congr_right fun _ => ?_
    cases c.header? HeaderName.sessionToken with
    | none => simp
    | some token => simp [hlive]
  · rw [Backend.answer_fst, Backend.store_answer, answer_of_letIn hr hgate htakes]
    exact ⟨rfl, rfl⟩
  · rw [Backend.answer_fst, Backend.store_answer, answer_of_refusal hr hgate, Route.status_sent,
      Route.body_sent]
    exact ⟨c.status_refusal, rfl, rfl⟩
  · have hgate' : gate s' f'.now.second c ≠ .ok () := by
      rw [Ne, gate_iff] at hgate ⊢
      simpa only [← hsame] using hgate
    rw [answer_of_refusal hr hgate, answer_of_refusal hr hgate']

end

/-- A session is let in until an hour after its login, and is not let in afterwards. -/
theorem access_follows_history_of_login :
    let clock (n : Nat) : Fresh := { numbered n with now := ⟨3600 * (n / 2 : Nat), 0⟩ }
    let headers : Pairs := [("X-Application-Id", "app-id"), ("X-Application-Key", "app-key"),
      ("Content-Type", "application/json")]
    let body := Utf8.ofString "\x7b\"email\":\"alice@example.com\",\"password\":\"secret\"\x7d"
    let login : Call := ⟨"POST", "/1/tenant/login", "", headers, body⟩
    let read : Call :=
      ⟨"GET", "/1/tenant/objects/t", "", ("X-Session-Token", "i0") :: headers, []⟩
    let after (calls : List Call) := Backend.answerAll clock calls {}
    (∃ since, Backend.Issued clock [login] "i0" since ∧ (clock 1).now.second < since + 3600) ∧
      ((after [login]).answer clock read).1.status = 200 ∧
      ((after [login, login]).answer clock read).1.status = 401 := by
  intro clock headers body login read after
  have hclock : Function.Injective fun n => (clock n).first := fun m n h =>
    neverRepeats_numbered m n _ (List.mem_cons_self ..) (by
      rw [show (numbered m).first = (numbered n).first from h]
      exact List.mem_cons_self ..)
  have hpath : Route.ofPath? read.path = some (.bucketObjects "t") := by decide +kernel
  obtain ⟨hiff, hok, -, -⟩ := access_follows_history hclock [login] hpath
  obtain ⟨-, -, hrefused, -⟩ := access_follows_history hclock [login, login] hpath
  have hgate : gate (after [login]).store (clock 1).now.second read = .ok () := by decide +kernel
  have hgate' : gate (after [login, login]).store (clock 2).now.second read ≠ .ok () := by
    decide +kernel
  refine ⟨?_, ?_, (hrefused hgate').1⟩
  · have hnamed : read.header? HeaderName.sessionToken = some "i0" := by decide +kernel
    obtain ⟨-, hnone | ⟨token, since, htoken, hissued, hnow⟩⟩ := hiff.1 hgate
    · cases hnone.symm.trans hnamed
    · obtain rfl : token = "i0" := Option.some.inj (htoken.symm.trans hnamed)
      exact ⟨since, hissued, hnow⟩
  · rw [(hok hgate rfl).1, Route.status_sent]
    decide +kernel

/-- What a call gets that is turned away does depend on its method: only the head is sent to a call
that asks for no more. -/
theorem refused_body_depends_on_method :
    ¬ ∃ body : Refusal → Bytes, ∀ (s : Store) (f : Fresh) (c : Call) (r : Route)
      (refusal : Refusal), Route.ofPath? c.path = some r →
      gate s f.now.second c = .error refusal →
      (answer s f c).1.status = 401 ∧ (answer s f c).1.body = body refusal := by
  rintro ⟨body, h⟩
  have hpath : Route.ofPath? "/1/tenant/objects/t" = some (.bucketObjects "t") := by
    decide +kernel
  have hget := (h {} ⟨⟨0, 0⟩, "", ""⟩ ⟨"GET", "/1/tenant/objects/t", "", [], []⟩ _
    .wrongApplication hpath rfl).2
  have hhead := (h {} ⟨⟨0, 0⟩, "", ""⟩ ⟨"HEAD", "/1/tenant/objects/t", "", [], []⟩ _
    .wrongApplication hpath rfl).2
  exact absurd (hget.trans hhead.symm) (by decide +kernel)

end AppBackend.Server
