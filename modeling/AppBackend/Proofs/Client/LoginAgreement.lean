import AppBackend.Proofs.Client.LoginReply

/-!
# Logins from replies and from texts

A reply is read as a value and the login taken from the object, an imported text is read as a login
at once. Main statements: `Login.ofText?_eq_some_iff`, the texts that are logins, and
`login_and_import_agree`, the same text does the same both ways.
-/

namespace AppBackend

/-- The names of the members of a text that is an object, as they come. -/
def Json.topLevelNames (text : String) : List String :=
  outerNames 0 (tokens (text.toList.map some))

namespace Login

/-- The expiry that a text gives, 0 if it gives none. -/
def expiryIn (text : String) : Int :=
  (((Json.ofString? text).bind Json.obj?).bind fun fs =>
    (fs.get? "expire").bind Json.int?).getD 0

theorem expiryIn_of_object {text : String} {fs : Json.Fields}
    (h : Json.ofString? text = some (.obj fs)) : expiryIn text = (ofMembers fs).expiry := by
  rw [expiryIn, h]
  rfl

section
variable {text : String}
  (hnames : ∀ fs, Json.ofString? text = some (.obj fs) → (Json.topLevelNames text).Nodup)
include hnames

/-- A text is a login just when it is an object that holds one. -/
theorem ofText?_eq :
    ofText? text = ((Json.ofString? text).bind Json.obj?).bind fun fs =>
      (schema.ofFields? fs).map ofMembers := by
  have hunits {gs : Json.Fields} : schema.ofUnits (text.toList.map some) = .ok gs ↔
      ∃ fs, Json.ofString? text = some (.obj fs) ∧ schema.ofFields? fs = some gs :=
    Json.Schema.ofUnits_eq_ok_iff rfl rfl hnames
  unfold ofText?
  cases hread : schema.ofUnits (text.toList.map some) with
  | ok gs =>
    obtain ⟨fs, hobject, hfields⟩ := hunits.1 hread
    simp [hobject, Json.obj?, hfields]
  | error f =>
    cases hv : (Json.ofString? text).bind Json.obj? with
    | none => rfl
    | some fs =>
      have hobject := Json.eq_some_obj_of_bind hv
      cases hfields : schema.ofFields? fs with
      | none => simp [hfields]
      | some gs => cases hread.symm.trans (hunits.2 ⟨fs, hobject, hfields⟩)

/-- A text with a token is imported as the login that a reply with this text brings. -/
theorem filter_ofText?_eq {r : Response} (hbody : r.body = Utf8.ofString text) :
    (ofText? text).filter (fun l => l.token != "") = ofObject? r.jsonObject := by
  have hobject : r.jsonObject = ((Json.ofString? text).bind Json.obj?).getD [] := by
    rw [Response.jsonObject, hbody, Json.ofBytes?, Utf8.ofString, Utf8.decode_encode]
    rfl
  rw [ofText?_eq hnames, hobject, ofObject?]
  cases (Json.ofString? text).bind Json.obj? with
  | none => rfl
  | some fs => rfl

end

theorem of_ofObject? {text : String} {r : Response} {l : Login}
    (hbody : r.body = Utf8.ofString text) (h : ofObject? r.jsonObject = some l) :
    l.token ≠ "" ∧ expiryIn text = l.expiry := by
  obtain ⟨fs, hobject, -, htoken, rfl⟩ := ofObject?_jsonObject_eq_some_iff.1 h
  rw [hbody, Json.ofBytes?, Utf8.ofString, Utf8.decode_encode] at hobject
  exact ⟨htoken, expiryIn_of_object hobject⟩

end Login

/-! ### The same text both ways -/

namespace Client

variable {ε ω : Type}

theorem importLogin_of_none {text : String}
    (h : (Login.ofText? text).filter (fun l => l.token != "") = none) (now : Int)
    (c : Client ε ω) : c.importLogin now text = (.error .invalidArgument, c) := by
  rw [importLogin, h]

theorem importLogin_of_some {text : String} {l : Login}
    (h : (Login.ofText? text).filter (fun l => l.token != "") = some l) (now : Int)
    (c : Client ε ω) :
    c.importLogin now text =
      if now < l.expiry then (.ok (), c.setSession l.toSession)
      else (.error .sessionExpired, c) := by
  rw [importLogin, h]
  dsimp only
  split
  · rename_i hexpired
    rw [if_neg (Int.not_lt.2 (of_decide_eq_true hexpired))]
  · rename_i hlive
    rw [if_pos (Int.not_le.1 (of_decide_eq_false (Bool.eq_false_iff.2 hlive)))]

end Client

/-- A text with no name twice at the top comes to one service as the reply to a login, and to
another as an import, at the same time. Either both find no login in it and keep their sessions, or
the login succeeds; then so does the import, unless the session has run out, and both services have
the same session; if it has run out then neither is logged in by it. -/
theorem login_and_import_agree {ε ω ε' ω' : Type} (e : Engine ε ω) (now : Int)
    (username email password : String) (timeout : Int) (c : Client ε ω) (target : Client ε' ω')
    {text : String}
    (hnames : ∀ fs, Json.ofString? text = some (.obj fs) → (Json.topLevelNames text).Nodup)
    {t : Transfer} {x : Exchange}
    (hsent : (c.recorded.login e.recorded now username email password timeout).2.traffic = [(t, x)])
    (hending : x.ending = .ok ())
    (hstatus : 200 ≤ x.toTranscript.response.status ∧ x.toTranscript.response.status < 300)
    (hbody : x.toTranscript.response.body = Utf8.ofString text) :
    let out := c.login e now username email password timeout
    let imported := target.importLogin now text
    (out.1 = .fatal .noStatus ↔ imported.1 = .error .invalidArgument) ∧
    (out.1 = .fatal .noStatus → out.2.service.session = c.service.session ∧
      imported.2.service.session = target.service.session) ∧
    (out.1 ≠ .fatal .noStatus → (∃ a, out.1 = .success a) ∧
      imported.1 = if now < Login.expiryIn text then .ok () else .error .sessionExpired) ∧
    (imported.1 = .ok () → out.2.isLoggedIn now = true ∧
      out.2.service.session = imported.2.service.session) ∧
    (imported.1 = .error .sessionExpired →
      imported.2.service.session = target.service.session ∧
      ∀ later, now ≤ later → out.2.isLoggedIn later = false) := by
  intro out imported
  have hsame : out = _ := c.recorded.login_recorded e now username email password timeout
  have hcase := Client.login_cases now username email password timeout e c.recorded
  have hclass : classify x.ending x.toTranscript.response = .success x.toTranscript.response :=
    classify_eq_success_iff.2 ⟨hending, by simpa [Response.isSuccess] using hstatus, rfl⟩
  have hreply := hcase.of_reply rfl hsent hclass
  generalize c.recorded.login e.recorded now username email password timeout = seen at *
  have hfilter := Login.filter_ofText?_eq hnames hbody
  cases hl : Login.ofObject? x.toTranscript.response.jsonObject with
  | none =>
    rw [hl] at hreply hfilter
    obtain ⟨hfatal, hsession⟩ := hreply
    have himported : imported = _ := Client.importLogin_of_none hfilter now target
    rw [hsame, himported]
    exact ⟨⟨fun _ => rfl, fun _ => hfatal⟩, fun _ => ⟨hsession, rfl⟩,
      fun hne => absurd hfatal hne, by simp, by simp⟩
  | some l =>
    rw [hl] at hreply hfilter
    obtain ⟨hsuccess, hsession⟩ := hreply
    obtain ⟨htoken, hexpiry⟩ := Login.of_ofObject? hbody hl
    have himported : imported = _ := Client.importLogin_of_some hfilter now target
    have hnotfatal : seen.1 ≠ .fatal .noStatus := by
      simp [hsuccess]
    rw [hsame, himported, hexpiry]
    by_cases hlive : now < l.expiry
    · have hkept : seen.2.service.session = l.toSession := by
        rw [hsession, Session.refresh_of_isValid (Session.isValid_of_live htoken hlive)]
      have hin : seen.2.isLoggedIn now = true := by
        rw [Client.isLoggedIn, hkept, Session.isValid_of_live htoken hlive]
      rw [if_pos hlive, if_pos hlive]
      exact ⟨iff_of_false hnotfatal (by simp), fun h => absurd h hnotfatal,
        fun _ => ⟨⟨_, hsuccess⟩, rfl⟩, fun _ => ⟨hin, hkept⟩, by simp⟩
    · have hout (later : Int) (hlater : now ≤ later) : seen.2.isLoggedIn later = false := by
        rw [Client.isLoggedIn_eq, Client.session, hsession,
          Session.view_refresh_of_gone htoken (Int.not_lt.1 hlive) hlater]
        rfl
      rw [if_neg hlive, if_neg hlive]
      exact ⟨iff_of_false hnotfatal (by simp), fun h => absurd h hnotfatal,
        fun _ => ⟨⟨_, hsuccess⟩, rfl⟩, by simp, fun _ => ⟨rfl, hout⟩⟩

/-- Names inside a member and members that no login has make no difference. The session runs out at
9: it is taken both ways at 5, and at 9 it is taken neither way. -/
theorem login_and_import_agree_of_nested :
    let text := "\x7b\"extra\":[\x7b\"expire\":1,\"expire\":2\x7d],\"expire\":9,"
      ++ "\"sessionToken\":\"new\",\"username\":\"ann\"\x7d"
    let reply : Exchange :=
      ⟨[.header "HTTP/1.1 200 OK\r\n", .chunk (Utf8.ofString text)], .ok ()⟩
    let service (s : Session) : Service Unit :=
      ⟨⟨"http://h", "t", "a", "k", ""⟩, {}, s, .new 1 1, 60⟩
    let c : Client Unit Replay := ⟨service {}, {}, { exchange := reply }⟩
    let target : Client Unit Unit := ⟨service ⟨"old", 6, {}⟩, {}, ()⟩
    (c.login Replay.engine 5 "ann" "" "p" 0).2.service.session
        = (target.importLogin 5 text).2.service.session ∧
      (target.importLogin 5 text).2.service.session.token = "new" ∧
      (target.importLogin 9 text).2.service.session = target.service.session ∧
      (c.login Replay.engine 9 "ann" "" "p" 0).2.isLoggedIn 9 = false := by
  intro text reply service c target
  have hnames : ∀ fs, Json.ofString? text = some (.obj fs) → (Json.topLevelNames text).Nodup :=
    fun _ _ => by decide +kernel
  have hsent (now : Int) :
      (c.recorded.login Replay.engine.recorded now "ann" "" "p" 0).2.traffic =
        [(c.recorded.loginTransfer now "ann" "" "p" 0, reply)] :=
    Client.traffic_login_of_loan now "ann" "" "p" 0 (by decide) Replay.engine (c := c.recorded)
      (by decide) rfl
  have hstatus : 200 ≤ reply.toTranscript.response.status ∧
      reply.toTranscript.response.status < 300 := by decide +kernel
  have hbody : reply.toTranscript.response.body = Utf8.ofString text := by decide +kernel
  obtain ⟨-, -, -, hok, -⟩ := login_and_import_agree Replay.engine 5 "ann" "" "p" 0 c target
    hnames (hsent 5) rfl hstatus hbody
  obtain ⟨-, -, -, -, hexpired⟩ := login_and_import_agree Replay.engine 9 "ann" "" "p" 0 c target
    hnames (hsent 9) rfl hstatus hbody
  have htaken : (target.importLogin 5 text).1 = .ok () := by decide +kernel
  have hgone : (target.importLogin 9 text).1 = .error .sessionExpired := by decide +kernel
  exact ⟨(hok htaken).2, by decide +kernel, (hexpired hgone).1, (hexpired hgone).2 9 (by decide)⟩

end AppBackend
