import AppBackend.Proofs.Client.Traffic
import AppBackend.Proofs.Json.Conversion
import AppBackend.Proofs.Json.Reading
import AppBackend.Proofs.Transfer.VerifiedDownload

/-!
# Logins from replies

A login sends one request, which does not depend on the session that there is, and takes the reply
whole or not at all. Main statements: `Login.ofObject?_eq_some_iff`, the objects that are logins;
`login_cases`, all that a login can do; and `login_is_all_or_nothing`.
-/

namespace AppBackend

variable {ε ω : Type}

/-! ### Objects that are logins -/

theorem Json.eq_some_obj_of_bind {v : Option Json} {fs : Json.Fields}
    (h : v.bind Json.obj? = some fs) : v = some (.obj fs) := by
  obtain ⟨w, rfl, hobj⟩ := Option.bind_eq_some_iff.1 h
  cases w with
  | obj members => rw [Option.some.inj hobj]
  | _ => cases hobj

namespace Json.Shape

theorem conforms_text_iff {v : Json} : Shape.text.conforms v = true ↔ ∃ s, v = .str s := by
  cases v <;> simp [conforms]

theorem conforms_object_iff {v : Json} : Shape.object.conforms v = true ↔ ∃ fs, v = .obj fs := by
  cases v <;> simp [conforms]

theorem conforms_int64_iff {v : Json} :
    Shape.int64.conforms v = true ↔
      ∃ n : Int, v = .int n ∧ -0x8000000000000000 ≤ n ∧ n < 0x8000000000000000 := by
  cases v <;> simp [conforms]

theorem all_str_iff {items : List Json} :
    (items.all fun v => v.str?.isSome) = true ↔ ∃ ts : List String, items = ts.map .str := by
  induction items with
  | nil => exact ⟨fun _ => ⟨[], rfl⟩, fun _ => rfl⟩
  | cons v items ih =>
    rw [List.all_cons, Bool.and_eq_true, ih]
    constructor
    · rintro ⟨hv, ts, rfl⟩
      cases v with
      | str t => exact ⟨t :: ts, rfl⟩
      | _ => cases hv
    · rintro ⟨ts, hts⟩
      cases ts with
      | nil => cases hts
      | cons t ts =>
        obtain ⟨rfl, rfl⟩ := List.cons.inj hts
        exact ⟨rfl, ts, rfl⟩

theorem conforms_texts_iff {v : Json} :
    Shape.texts.conforms v = true ↔ ∃ ts : List String, v = .arr (ts.map .str) := by
  cases v with
  | arr items => simpa [conforms] using all_str_iff
  | _ => simp [conforms]

end Json.Shape

namespace Login

/-- Every field of a login is absent, or it is of its type. -/
structure WellTyped (fs : Json.Fields) : Prop where
  texts : ∀ key ∈ ["_id", "username", "email", "createdAt", "updatedAt", "sessionToken"],
    ∀ v, fs.get? key = some v → ∃ s, v = .str s
  options : ∀ v, fs.get? "options" = some v → ∃ members, v = .obj members
  groups : ∀ v, fs.get? "groups" = some v → ∃ names : List String, v = .arr (names.map .str)
  expiry : ∀ v, fs.get? "expire" = some v →
    ∃ n : Int, v = .int n ∧ -0x8000000000000000 ≤ n ∧ n < 0x8000000000000000

theorem conforms_iff {fs : Json.Fields} (hfs : Keyed.Ascending fs) :
    schema.Conforms fs ↔ WellTyped fs := by
  constructor
  · intro h
    have hget {key : String} {shape : Json.Shape} (hm : schema.member? key = some ⟨key, shape⟩) (v)
        (hv : fs.get? key = some v) : shape.conforms v = true :=
      h _ (Keyed.mem_of_get? hv) _ hm
    refine ⟨?_, ?_, ?_, ?_⟩
    · intro key hkey v hv
      refine Json.Shape.conforms_text_iff.1 (hget ?_ v hv)
      simp only [List.mem_cons, List.not_mem_nil, or_false] at hkey
      rcases hkey with rfl | rfl | rfl | rfl | rfl | rfl <;> rfl
    · exact fun v hv => Json.Shape.conforms_object_iff.1 (hget (by rfl) v hv)
    · exact fun v hv => Json.Shape.conforms_texts_iff.1 (hget (by rfl) v hv)
    · exact fun v hv => Json.Shape.conforms_int64_iff.1 (hget (by rfl) v hv)
  · rintro h ⟨key, v⟩ hf m hm
    have hv : fs.get? key = some v := hfs.get?_of_mem hf
    have hmem : m ∈ schema.members := List.mem_of_find?_eq_some hm
    obtain rfl : m.name = key := by simpa using List.find?_some hm
    simp only [schema, Account.members, List.cons_append, List.nil_append, List.mem_cons,
      List.not_mem_nil, or_false] at hmem
    rcases hmem with rfl | rfl | rfl | rfl | rfl | rfl | rfl | rfl | rfl
    · exact Json.Shape.conforms_text_iff.2 (h.texts _ (by simp) v hv)
    · exact Json.Shape.conforms_text_iff.2 (h.texts _ (by simp) v hv)
    · exact Json.Shape.conforms_text_iff.2 (h.texts _ (by simp) v hv)
    · exact Json.Shape.conforms_object_iff.2 (h.options v hv)
    · exact Json.Shape.conforms_texts_iff.2 (h.groups v hv)
    · exact Json.Shape.conforms_text_iff.2 (h.texts _ (by simp) v hv)
    · exact Json.Shape.conforms_text_iff.2 (h.texts _ (by simp) v hv)
    · exact Json.Shape.conforms_text_iff.2 (h.texts _ (by simp) v hv)
    · exact Json.Shape.conforms_int64_iff.2 (h.expiry v hv)

/-- A login does not look at members that it does not know. -/
theorem ofMembers_known (fs : Json.Fields) : ofMembers (schema.known fs) = ofMembers fs := by
  have hget (key : String) (hkey : (schema.member? key).isSome = true) :
      (schema.known fs).get? key = fs.get? key := by
    rw [Json.Schema.known, Keyed.get?_filter (fun name => (schema.member? name).isSome), hkey]
    rfl
  simp (disch := decide) only [ofMembers, Account.ofMembers, Json.Fields.text, hget]

theorem ofObject?_eq_some_iff {fs : Json.Fields} (hfs : Keyed.Ascending fs) {l : Login} :
    ofObject? fs = some l ↔
      WellTyped fs ∧ fs.text "sessionToken" ≠ "" ∧ l = ofMembers fs := by
  have hcomplete (gs : Json.Fields) : schema.Complete gs := rfl
  have htoken : (ofMembers fs).token = fs.text "sessionToken" := rfl
  unfold ofObject?
  simp only [Option.filter_eq_some_iff, Option.map_eq_some_iff, Json.Schema.ofFields?_eq_some_iff,
    conforms_iff hfs, hcomplete, true_and]
  constructor
  · rintro ⟨⟨gs, ⟨htyped, rfl⟩, rfl⟩, hne⟩
    rw [ofMembers_known] at hne ⊢
    exact ⟨htyped, by simpa [htoken] using hne, rfl⟩
  · rintro ⟨htyped, hne, rfl⟩
    exact ⟨⟨_, ⟨htyped, rfl⟩, ofMembers_known fs⟩, by simpa [htoken] using hne⟩

/-- The logins among replies. A body that is no object is none. -/
theorem ofObject?_jsonObject_eq_some_iff {r : Response} {l : Login} :
    ofObject? r.jsonObject = some l ↔
      ∃ fs : Json.Fields, Json.ofBytes? r.body = some (.obj fs) ∧ WellTyped fs ∧
        fs.text "sessionToken" ≠ "" ∧ l = ofMembers fs := by
  unfold Response.jsonObject
  cases hv : (Json.ofBytes? r.body).bind Json.obj? with
  | none =>
    constructor
    · intro h
      cases h
    · rintro ⟨fs, hbody, -⟩
      rw [hbody] at hv
      cases hv
  | some fs =>
    have hbody := Json.eq_some_obj_of_bind hv
    have hfs : Keyed.Ascending fs := by
      have hordered := (Json.fits_of_ofUnits? hbody).1
      simp only [Json.isOrdered, Bool.and_eq_true, decide_eq_true_eq] at hordered
      exact hordered.1
    rw [Option.getD_some, ofObject?_eq_some_iff hfs]
    constructor
    · exact fun h => ⟨fs, hbody, h⟩
    · rintro ⟨members, hmembers, h⟩
      cases hbody.symm.trans hmembers
      exact h

end Login

theorem Session.isValid_of_live {s : Session} (htoken : s.token ≠ "") {now : Int}
    (h : now < s.expiry) : s.isValid now = true := by
  have hexpired : isExpired s.expiry now = false := decide_eq_false (Int.not_le.2 h)
  rw [isValid, bne_iff_ne.2 htoken, hexpired]
  rfl

/-- A session with a token is seen until it runs out. -/
theorem Session.view_of_token {s : Session} (htoken : s.token ≠ "") (now : Int) :
    s.view now = if now < s.expiry then s else {} := by
  split
  · rename_i hlive
    exact view_of_isValid (isValid_of_live htoken hlive)
  · rename_i hgone
    have hexpired : isExpired s.expiry now = true := decide_eq_true (Int.not_lt.1 hgone)
    exact view_of_not_isValid (by rw [isValid, hexpired, Bool.not_true, Bool.and_false])

/-- A session that has run out when it is stored is not seen from then on. -/
theorem Session.view_refresh_of_gone {s : Session} (htoken : s.token ≠ "") {now later : Int}
    (hgone : s.expiry ≤ now) (hlater : now ≤ later) : (s.refresh now).view later = {} := by
  rw [view_refresh_of_le hlater, view_of_token htoken,
    if_neg (Int.not_lt.2 (Int.le_trans hgone hlater))]

/-! ### The request of a login -/

namespace Request

theorem name_of_headerPair? {name value : String} (hname : ':' ∉ name.toList)
    {p : String × String} (h : headerPair? (headerLine name value) = some p) : p.1 = name := by
  have hline : (headerLine name value).toList = name.toList ++ ':' :: (' ' :: value.toList) := by
    simp [headerLine, String.toList_append]
  rw [headerPair?, hline, Text.cut?_append _ hname] at h
  obtain rfl := Option.some.inj h
  exact String.ofList_toList

end Request

namespace Draft

/-- A request without a header of some name, if its headers have other names, without colons. -/
theorem header?_build_eq_none {d : Draft} {name : String}
    (h : ∀ p ∈ d.headerPairs, ':' ∉ p.1.toList ∧ Text.sameName p.1 name = false) :
    d.build.header? name = none := by
  have hother : ∀ q ∈ d.build.headerPairs, ¬ Text.sameName q.1 name = true := by
    intro q hq
    obtain ⟨line, hline, hpair⟩ := List.mem_filterMap.1 hq
    obtain ⟨p, hp, rfl⟩ := List.mem_map.1 hline
    obtain ⟨hcolon, hne⟩ := h p hp
    rw [Request.name_of_headerPair? hcolon hpair, hne]
    exact Bool.false_ne_true
  rw [Request.header?, Pairs.header?, List.find?_eq_none.2 hother]
  rfl

end Draft

namespace Client

variable (now : Int) (username email password : String)

/-- What a login sends, if nothing is missing. -/
def loginDraft (c : Client ε ω) : Draft :=
  (c.service.draft now).applyAll (loginSteps username email password)

theorem loginDraft_eq {c : Client ε ω} (h : c.service.credentials.missing? = none) :
    c.loginDraft now username email password =
      { c.service.draft now with
        method := .post
        path := loginPath
        headers := [(HeaderName.contentType, jsonMediaType)]
        body := (loginBody username email password).bytes
        withSession := false } :=
  Draft.applyAll_of_complete (d := c.service.draft now) h _

theorem build_loginDraft_setSession {c : Client ε ω} (h : c.service.credentials.missing? = none)
    (s : Session) :
    ((c.setSession s).loginDraft now username email password).build
      = (c.loginDraft now username email password).build := by
  rw [loginDraft_eq now username email password h,
    loginDraft_eq (c := c.setSession s) now username email password h]
  rfl

/-- No header of a login names a session. -/
theorem header?_loginDraft {c : Client ε ω} (h : c.service.credentials.missing? = none) :
    (c.loginDraft now username email password).build.header? HeaderName.sessionToken = none := by
  have hnames : ∀ name ∈ [HeaderName.contentType, HeaderName.appId, HeaderName.appKey,
      HeaderName.userAgent],
      ':' ∉ name.toList ∧ Text.sameName name HeaderName.sessionToken = false := by decide
  refine Draft.header?_build_eq_none fun p hp => ?_
  rw [loginDraft_eq now username email password h] at hp
  have hall : p ∈ [(HeaderName.contentType, jsonMediaType),
      (HeaderName.appId, c.service.credentials.appId),
      (HeaderName.appKey, c.service.credentials.appKey),
      (HeaderName.userAgent, defaultUserAgent)] := (List.mem_filter.1 hp).1
  exact hnames p.1 (List.mem_map_of_mem (f := Prod.fst) hall)

/-! ### All that a login can do -/

variable (timeout : Int)

/-- The transfer of a login. -/
def loginTransfer (c : Client ε ω) : Transfer :=
  ⟨(c.loginDraft now username email password).build,
    effectiveTimeout (c.service.timeoutFor timeout), none⟩

/-- What becomes of a login: nothing is sent, the reply is no login, or the reply is taken. -/
inductive LoginCase (c : Client ε (ω × Traffic)) :
    Outcome Account × Client ε (ω × Traffic) → Prop where
  | unsent (f : Failure) : LoginCase c (.fatal f, c)
  | rejected {x : Exchange} {o : Outcome Account} {c' : Client ε (ω × Traffic)}
      (hcomplete : c.service.credentials.missing? = none)
      (htraffic : c'.traffic = c.traffic
        ++ [(c.loginTransfer now username email password timeout, x)])
      (hsession : c'.service.session = c.service.session) (hfail : ∀ a, o ≠ .success a)
      (hreply : ∀ r, classify x.ending x.toTranscript.response = .success r →
        Login.ofObject? r.jsonObject = none ∧ o = .fatal .noStatus) :
      LoginCase c (o, c')
  | taken {x : Exchange} {r : Response} {l : Login} {c' : Client ε (ω × Traffic)}
      (hcomplete : c.service.credentials.missing? = none)
      (htraffic : c'.traffic = c.traffic
        ++ [(c.loginTransfer now username email password timeout, x)])
      (hreply : classify x.ending x.toTranscript.response = .success r)
      (hlogin : Login.ofObject? r.jsonObject = some l)
      (hsession : c'.service.session = l.toSession.refresh now) :
      LoginCase c (.success (c'.session now).account, c')

theorem traffic_concludeLogin (r : Outcome Response × Client ε (ω × Traffic)) :
    (concludeLogin now r).2.traffic = r.2.traffic := by
  obtain ⟨o, c⟩ := r
  obtain ⟨verdict, next, hconclude⟩ := exists_concludeLogin now o
  rw [hconclude]
  rfl

theorem login_cases (e : Engine ε ω) (c : Client ε (ω × Traffic)) :
    c.LoginCase now username email password timeout
      (c.login e.recorded now username email password timeout) := by
  by_cases harg : (username = "" ∧ email = "") ∨ password = ""
  · rw [login_of_refused harg]
    exact .unsent .invalidArgument
  rw [login_of_accepted harg]
  have hflight := c.flight_send e (c.loginDraft now username email password) timeout
  change LoginCase _ _ _ _ _ c (concludeLogin now
    (c.send e.recorded (c.loginDraft now username email password) .plain timeout))
  generalize c.send e.recorded _ .plain timeout = sent at hflight ⊢
  cases hflight with
  | refused hf => exact .unsent _
  | @sent x c' hcomplete htraffic hsession =>
    have hcomplete : c.service.credentials.missing? = none := by
      rwa [loginDraft, Draft.missing?_applyAll] at hcomplete
    cases hreply : classify x.ending x.toTranscript.response with
    | rest error =>
      exact .rejected hcomplete htraffic hsession (by simp) (by simp [hreply])
    | fatal f =>
      exact .rejected hcomplete htraffic hsession (by simp) (by simp [hreply])
    | success r =>
      simp only [concludeLogin]
      cases hlogin : Login.ofObject? r.jsonObject with
      | none =>
        refine .rejected hcomplete htraffic hsession (by simp) fun r' hr' => ?_
        cases hreply.symm.trans hr'
        exact ⟨hlogin, rfl⟩
      | some l => exact .taken hcomplete htraffic hreply hlogin rfl

/-- A login that has all it needs is sent. -/
theorem traffic_login_of_loan (harg : ¬ ((username = "" ∧ email = "") ∨ password = ""))
    (e : Engine ε ω) {c : Client ε (ω × Traffic)}
    (hcomplete : c.service.credentials.missing? = none) {x : Executor ε} {pool : Pool ε}
    (hloan : c.service.pool.acquire? e.fresh = some (x, pool)) :
    let t := c.loginTransfer now username email password timeout
    (c.login e.recorded now username email password timeout).2.traffic
      = c.traffic ++ [(t, (e.perform c.site.disk t x.engine c.site.backend.1).1)] := by
  intro t
  have hmissing : (c.loginDraft now username email password).missing? = none := by
    rw [loginDraft, Draft.missing?_applyAll]
    exact hcomplete
  rw [login_of_accepted harg, traffic_concludeLogin]
  exact traffic_send_of_loan e c hmissing hloan timeout

/-! ### Any session -/

theorem send_setSession (e : Engine ε ω) (d : Draft) (what : Job) (s : Session) (c : Client ε ω) :
    (c.setSession s).send e d what timeout =
      ((c.send e d what timeout).1, (c.send e d what timeout).2.setSession s) := by
  cases hm : d.missing? with
  | some f => simp only [send, execute_of_missing hm]
  | none =>
    cases ha : c.service.pool.acquire? e.fresh with
    | none =>
      have ha' : (c.setSession s).service.pool.acquire? e.fresh = none := ha
      simp only [send, execute_of_exhausted hm ha, execute_of_exhausted hm ha']
    | some loan =>
      have ha' : (c.setSession s).service.pool.acquire? e.fresh = some loan := ha
      simp only [send, execute_of_loan hm ha, execute_of_loan hm ha']
      rfl

theorem send_congr {d d' : Draft} (hmissing : d.missing? = d'.missing?)
    (hbuild : d.missing? = none → d.build = d'.build) (e : Engine ε ω) (what : Job)
    (c : Client ε ω) : c.send e d what timeout = c.send e d' what timeout := by
  cases hm : d.missing? with
  | some f =>
    rw [send, send, execute_of_missing hm, execute_of_missing (hmissing.symm.trans hm)]
  | none => rw [send, send, execute, execute, ← hmissing, hbuild hm]

/-- What a login sends has nothing to do with the session. -/
theorem traffic_login_setSession (e : Engine ε ω) (s : Session) (c : Client ε (ω × Traffic)) :
    ((c.setSession s).login e.recorded now username email password timeout).2.traffic
      = (c.login e.recorded now username email password timeout).2.traffic := by
  by_cases harg : (username = "" ∧ email = "") ∨ password = ""
  · rw [login_of_refused harg, login_of_refused harg]
    rfl
  have hmissing : ((c.setSession s).loginDraft now username email password).missing?
      = (c.loginDraft now username email password).missing? := by
    rw [loginDraft, loginDraft, Draft.missing?_applyAll, Draft.missing?_applyAll]
    rfl
  have hbuild (h : ((c.setSession s).loginDraft now username email password).missing? = none) :
      ((c.setSession s).loginDraft now username email password).build
        = (c.loginDraft now username email password).build := by
    have hcomplete : c.service.credentials.missing? = none := by
      rwa [loginDraft, Draft.missing?_applyAll] at h
    exact build_loginDraft_setSession (c := c) now username email password hcomplete s
  have hsend := send_congr timeout hmissing hbuild e.recorded .plain (c.setSession s)
  rw [login_of_accepted harg, login_of_accepted harg, traffic_concludeLogin,
    traffic_concludeLogin]
  change ((c.setSession s).send e.recorded
      ((c.setSession s).loginDraft now username email password) .plain timeout).2.traffic
    = (c.send e.recorded (c.loginDraft now username email password) .plain timeout).2.traffic
  rw [hsend, send_setSession, traffic_setSession]

/-! ### What a login leaves -/

namespace LoginCase

variable {now : Int} {username email password : String} {timeout : Int}
  {c : Client ε (ω × Traffic)} {out : Outcome Account × Client ε (ω × Traffic)}

/-- The only transfer there is, is the one that was added. -/
theorem eq_of_traffic {c' : Client ε (ω × Traffic)} {p q : Transfer × Exchange}
    (hbegin : c.traffic = []) (htraffic : c'.traffic = c.traffic ++ [p])
    (hone : c'.traffic = [q]) : q = p := by
  rw [htraffic, hbegin, List.nil_append] at hone
  exact (List.cons.inj hone).1.symm

theorem session_of_failed (h : c.LoginCase now username email password timeout out)
    (hfail : ∀ a, out.1 ≠ .success a) : out.2.service.session = c.service.session := by
  cases h with
  | unsent f => rfl
  | rejected hcomplete htraffic hsession hfail hreply => exact hsession
  | taken hcomplete htraffic hreply hlogin hsession => exact absurd rfl (hfail _)

theorem success_iff (h : c.LoginCase now username email password timeout out)
    (hbegin : c.traffic = []) :
    (∃ a, out.1 = .success a) ↔ ∃ t x r, ∃ fs : Json.Fields, out.2.traffic = [(t, x)] ∧
      classify x.ending x.toTranscript.response = .success r ∧
      Json.ofBytes? r.body = some (.obj fs) ∧ Login.WellTyped fs ∧
      fs.text "sessionToken" ≠ "" := by
  cases h with
  | unsent f =>
    constructor
    · rintro ⟨a, ha⟩
      cases ha
    · rintro ⟨t, x, -, -, htraffic, -⟩
      cases hbegin.symm.trans htraffic
  | rejected hcomplete htraffic hsession hfail hreply =>
    constructor
    · rintro ⟨a, ha⟩
      exact absurd ha (hfail a)
    · rintro ⟨t, x, r, fs, hone, hsuccess, hbody, htyped, htoken⟩
      obtain rfl := congrArg Prod.snd (eq_of_traffic hbegin htraffic hone)
      have hlogin := Login.ofObject?_jsonObject_eq_some_iff.2 ⟨fs, hbody, htyped, htoken, rfl⟩
      cases (hreply r hsuccess).1.symm.trans hlogin
  | taken hcomplete htraffic hreply hlogin hsession =>
    refine ⟨fun _ => ?_, fun _ => ⟨_, rfl⟩⟩
    obtain ⟨fs, hbody, htyped, htoken, -⟩ := Login.ofObject?_jsonObject_eq_some_iff.1 hlogin
    rw [hbegin] at htraffic
    exact ⟨_, _, _, fs, htraffic, hreply, hbody, htyped, htoken⟩

theorem session_of_success (h : c.LoginCase now username email password timeout out)
    (hbegin : c.traffic = []) {a : Account} (ha : out.1 = .success a) {t : Transfer} {x : Exchange}
    {fs : Json.Fields} (hone : out.2.traffic = [(t, x)])
    (hbody : Json.ofBytes? x.toTranscript.response.body = some (.obj fs)) :
    let reply := (Login.ofMembers fs).toSession
    a = (out.2.session now).account ∧
      ∀ later, now ≤ later → out.2.session later = if later < reply.expiry then reply else {} := by
  intro reply
  cases h with
  | unsent f => cases ha
  | rejected hcomplete htraffic hsession hfail hreply => exact absurd ha (hfail a)
  | taken hcomplete htraffic hreply hlogin hsession =>
    refine ⟨(Outcome.success.inj ha).symm, fun later hlater => ?_⟩
    obtain rfl := congrArg Prod.snd (eq_of_traffic hbegin htraffic hone)
    obtain ⟨members, hmembers, -, htoken, rfl⟩ :=
      Login.ofObject?_jsonObject_eq_some_iff.1 hlogin
    rw [(classify_eq_success_iff.1 hreply).2.2, hbody] at hmembers
    cases hmembers
    have hseen : (Session.refresh reply now).view later = reply.view later :=
      Session.view_refresh_of_le hlater reply
    rw [session, hsession, hseen]
    exact Session.view_of_token htoken later

/-- What a login takes from a reply that is a success. -/
theorem of_reply (h : c.LoginCase now username email password timeout out)
    (hbegin : c.traffic = []) {t : Transfer} {x : Exchange} (hone : out.2.traffic = [(t, x)])
    {r : Response} (hreply : classify x.ending x.toTranscript.response = .success r) :
    match Login.ofObject? r.jsonObject with
    | none => out.1 = .fatal .noStatus ∧ out.2.service.session = c.service.session
    | some l => out.1 = .success (out.2.session now).account ∧
      out.2.service.session = l.toSession.refresh now := by
  cases h with
  | unsent f => cases hbegin.symm.trans hone
  | rejected hcomplete htraffic hsession hfail hnone =>
    obtain rfl := congrArg Prod.snd (eq_of_traffic hbegin htraffic hone)
    obtain ⟨hlogin, ho⟩ := hnone r hreply
    rw [hlogin]
    exact ⟨ho, hsession⟩
  | taken hcomplete htraffic hsuccess hlogin hsession =>
    obtain rfl := congrArg Prod.snd (eq_of_traffic hbegin htraffic hone)
    cases hsuccess.symm.trans hreply
    rw [hlogin]
    exact ⟨rfl, hsession⟩

theorem header?_eq_none (h : c.LoginCase now username email password timeout out)
    (hbegin : c.traffic = []) :
    ∀ p ∈ out.2.traffic, p.1.request.header? HeaderName.sessionToken = none := by
  have hsent {c' : Client ε (ω × Traffic)} {x : Exchange}
      (hcomplete : c.service.credentials.missing? = none)
      (htraffic : c'.traffic = c.traffic
        ++ [(c.loginTransfer now username email password timeout, x)]) :
      ∀ p ∈ c'.traffic, p.1.request.header? HeaderName.sessionToken = none := by
    intro p hp
    rw [htraffic, hbegin, List.nil_append, List.mem_singleton] at hp
    rw [hp]
    exact header?_loginDraft now username email password hcomplete
  cases h with
  | unsent f =>
    rw [hbegin]
    exact fun p hp => absurd hp List.not_mem_nil
  | rejected hcomplete htraffic => exact hsent hcomplete htraffic
  | taken hcomplete htraffic => exact hsent hcomplete htraffic

end LoginCase
end Client

/-- A login that does not succeed leaves the session as it was. It succeeds just when a transfer was
made, its outcome is a success, and the body of the reply is an object whose fields are those of a
login, with a token. Then the session is seen from now on as the reply says, all of it, until it
runs out, and the account is the one that is seen. The session that was there before makes no
difference to what is sent, and no header names one. -/
theorem login_is_all_or_nothing (e : Engine ε ω) (now : Int) (username email password : String)
    (timeout : Int) (c : Client ε ω) :
    let login (c : Client ε ω) := c.recorded.login e.recorded now username email password timeout
    let out := c.login e now username email password timeout
    let traffic := (login c).2.traffic
    out = ((login c).1, (login c).2.unrecorded) ∧
    ((∀ a, out.1 ≠ .success a) → out.2.service.session = c.service.session) ∧
    ((∃ a, out.1 = .success a) ↔ ∃ t x r, ∃ fs : Json.Fields, traffic = [(t, x)] ∧
      classify x.ending x.toTranscript.response = .success r ∧
      Json.ofBytes? r.body = some (.obj fs) ∧ Login.WellTyped fs ∧
      fs.text "sessionToken" ≠ "") ∧
    (∀ a t x fs, out.1 = .success a → traffic = [(t, x)] →
      Json.ofBytes? x.toTranscript.response.body = some (.obj fs) →
      let reply := (Login.ofMembers fs).toSession
      a = (out.2.session now).account ∧
      ∀ later, now ≤ later → out.2.session later = if later < reply.expiry then reply else {}) ∧
    (∀ s, (login (c.setSession s)).2.traffic = traffic) ∧
    ∀ p ∈ traffic, p.1.request.header? HeaderName.sessionToken = none := by
  intro login out traffic
  have hsame : out = ((login c).1, (login c).2.unrecorded) :=
    c.recorded.login_recorded e now username email password timeout
  have hcase : c.recorded.LoginCase now username email password timeout (login c) :=
    Client.login_cases now username email password timeout e c.recorded
  have hsession (s : Session) : (login (c.setSession s)).2.traffic = traffic :=
    Client.traffic_login_setSession now username email password timeout e s c.recorded
  rw [hsame]
  exact ⟨rfl, hcase.session_of_failed, hcase.success_iff rfl,
    fun a t x fs ha hone hbody => hcase.session_of_success rfl ha hone hbody, hsession,
    hcase.header?_eq_none rfl⟩

/-- A reply that has a token and a field of another type is no login; one whose fields are of their
types is taken, until it runs out. -/
theorem login_is_all_or_nothing_of_replies :
    let reply (body : String) : Exchange :=
      ⟨[.header "HTTP/1.1 200 OK\r\n", .chunk (Utf8.ofString body)], .ok ()⟩
    let service : Service Unit :=
      ⟨⟨"http://h", "t", "a", "k", ""⟩, {}, ⟨"old", 9, {}⟩, .new 1 1, 60⟩
    let c (body : String) : Client Unit Replay := ⟨service, {}, { exchange := reply body }⟩
    let broken := "\x7b\"sessionToken\":\"new\",\"expire\":9,\"email\":null\x7d"
    let whole := "\x7b\"sessionToken\":\"new\",\"expire\":9,\"username\":\"u\"\x7d"
    ((c broken).login Replay.engine 5 "u" "" "p" 0).1.failure? = some .noStatus ∧
      ((c broken).login Replay.engine 5 "u" "" "p" 0).2.service.session
        = (c broken).service.session ∧
      (∃ a, ((c whole).login Replay.engine 5 "u" "" "p" 0).1 = .success a) ∧
      ∀ later, 5 ≤ later → ((c whole).login Replay.engine 5 "u" "" "p" 0).2.session later
        = if later < 9 then ⟨"new", 9, { username := "u" }⟩ else {} := by
  intro reply service c broken whole
  obtain ⟨-, hkept, -⟩ := login_is_all_or_nothing Replay.engine 5 "u" "" "p" 0 (c broken)
  obtain ⟨-, -, hiff, hseen, -⟩ := login_is_all_or_nothing Replay.engine 5 "u" "" "p" 0 (c whole)
  have hfail : ((c broken).login Replay.engine 5 "u" "" "p" 0).1.failure? = some .noStatus := by
    decide +kernel
  have hnone (a : Account) : ((c broken).login Replay.engine 5 "u" "" "p" 0).1 ≠ .success a := by
    intro ha
    rw [ha] at hfail
    cases hfail
  let fs : Json.Fields := [("expire", .int 9), ("sessionToken", .str "new"), ("username", .str "u")]
  let response := (reply whole).toTranscript.response
  have hread : Json.ofBytes? (Utf8.ofString whole) = some (.obj fs) := by
    -- with no local names left, both sides evaluate
    simp only [whole, fs]
    rfl
  have hbody : Json.ofBytes? response.body = some (.obj fs) := by
    rw [show response.body = Utf8.ofString whole by decide +kernel]
    exact hread
  have hreply : classify (reply whole).ending response = .success response :=
    classify_eq_success_iff.2 ⟨rfl, by decide +kernel, rfl⟩
  have hlogin : Login.ofObject? fs = some ⟨{ username := "u" }, "new", 9⟩ := rfl
  obtain ⟨htyped, htoken, hmembers⟩ := (Login.ofObject?_eq_some_iff (by decide)).1 hlogin
  have hsent : ((c whole).recorded.login Replay.engine.recorded 5 "u" "" "p" 0).2.traffic
      = [((c whole).recorded.loginTransfer 5 "u" "" "p" 0, reply whole)] :=
    Client.traffic_login_of_loan 5 "u" "" "p" 0 (by decide) Replay.engine (c := (c whole).recorded)
      (by decide) rfl
  obtain ⟨a, ha⟩ : ∃ a, ((c whole).login Replay.engine 5 "u" "" "p" 0).1 = .success a :=
    hiff.2 ⟨_, _, _, fs, hsent, hreply, hbody, htyped, htoken⟩
  obtain ⟨-, hlater⟩ := hseen a _ _ fs ha hsent hbody
  rw [← hmembers] at hlater
  exact ⟨hfail, hkept hnone, ⟨a, ha⟩, hlater⟩

end AppBackend
