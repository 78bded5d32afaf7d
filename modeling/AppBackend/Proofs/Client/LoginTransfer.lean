import AppBackend.Client.User
import AppBackend.Proofs.Json.Records

/-!
# Logins carried over

A login leaves one service as a text and comes into another, which may be in another program. Main
statements: `Login.ofText?_text`, the text of a login reads back as the login, and
`import_restores_exported_login`, a service that takes the text in time has the session that the text
was made of.
-/

namespace AppBackend

/-! ### Logins read back -/

namespace Login

/-- What makes a login readable from its text: options in order and without binary64 numbers, an
expiry of 64 bits, and no more depth than a reader takes. -/
structure Readable (l : Login) : Prop where
  options : (Json.obj l.account.options).isPlain = true
  low : -0x8000000000000000 ≤ l.expiry
  high : l.expiry < 0x8000000000000000
  depth : (Json.obj l.toMembers).depth ≤ 127

theorem arePlain_map_str (ts : List String) : Json.arePlain (ts.map .str) = true := by
  induction ts with
  | nil => rfl
  | cons t ts ih => simpa [Json.arePlain, Json.isPlain] using ih

theorem filterMap_str?_map_str (ts : List String) : (ts.map Json.str).filterMap Json.str? = ts := by
  induction ts with
  | nil => rfl
  | cons t ts ih => simpa [Json.str?] using ih

theorem fits_toMembers {l : Login} (h : l.Readable) : ∀ m ∈ l.toMembers, schema.Fits m := by
  have hgroups : Json.Shape.conforms .texts (.arr (l.account.groups.map .str)) = true := by
    simp [Json.Shape.conforms, Json.str?]
  have hexpiry : Json.Shape.conforms .int64 (.int l.expiry) = true := by
    simpa [Json.Shape.conforms] using ⟨h.low, h.high⟩
  have hplain : (Json.int l.expiry).isPlain = true := by
    have hlow := h.low
    have hhigh := h.high
    simp only [Json.isPlain, Bool.and_eq_true, decide_eq_true_eq]
    omega
  intro m hm
  simp only [toMembers, Account.toMembers, List.cons_append, List.nil_append, List.mem_cons,
    List.not_mem_nil, or_false] at hm
  rcases hm with rfl | rfl | rfl | rfl | rfl | rfl | rfl | rfl | rfl
  · exact ⟨⟨⟨"_id", .text⟩, by rfl, rfl⟩, rfl⟩
  · exact ⟨⟨⟨"username", .text⟩, by rfl, rfl⟩, rfl⟩
  · exact ⟨⟨⟨"email", .text⟩, by rfl, rfl⟩, rfl⟩
  · exact ⟨⟨⟨"options", .object⟩, by rfl, rfl⟩, h.options⟩
  · exact ⟨⟨⟨"groups", .texts⟩, by rfl, hgroups⟩, arePlain_map_str _⟩
  · exact ⟨⟨⟨"createdAt", .text⟩, by rfl, rfl⟩, rfl⟩
  · exact ⟨⟨⟨"updatedAt", .text⟩, by rfl, rfl⟩, rfl⟩
  · exact ⟨⟨⟨"sessionToken", .text⟩, by rfl, rfl⟩, rfl⟩
  · exact ⟨⟨⟨"expire", .int64⟩, by rfl, hexpiry⟩, hplain⟩

theorem names_toMembers (l : Login) : l.toMembers.Pairwise fun m n => m.1 ≠ n.1 := by
  have hnames : (l.toMembers.map (·.1)).Pairwise (· ≠ ·) := by
    show List.Pairwise (· ≠ ·) ["_id", "username", "email", "options", "groups", "createdAt",
      "updatedAt", "sessionToken", "expire"]
    decide
  exact List.pairwise_map.1 hnames

theorem ofMembers_toMembers (l : Login) : ofMembers (Keyed.ofList l.toMembers) = l := by
  have hget (key : String) : (Keyed.ofList l.toMembers).get? key = Keyed.get? l.toMembers key :=
    Keyed.get?_ofList l.names_toMembers key
  have hgroups : ((Keyed.get? l.toMembers "groups").bind Json.arr?).getD []
      = l.account.groups.map .str := rfl
  simp only [ofMembers, Account.ofMembers, Json.Fields.text, hget, hgroups, filterMap_str?_map_str]
  rfl

/-- The text of a login reads back as the login. -/
theorem ofText?_text {l : Login} (h : l.Readable) : ofText? l.text = some l := by
  have hne : l.toMembers ≠ [] := by simp [toMembers]
  have hread := Json.Schema.ofUnits_write hne (fits_toMembers h) h.depth l.names_toMembers
    (by simp [schema])
  rw [ofText?, text, Json.text, String.toList_ofList, hread]
  exact congrArg some l.ofMembers_toMembers

end Login

/-! ### Between two services -/

variable {ε ω : Type}

namespace Client

theorem exportLogin_of_isValid {c : Client ε ω} {now : Int}
    (h : c.service.session.isValid now = true) :
    c.exportLogin now = c.service.session.toLogin.text := by
  rw [exportLogin, isLoggedIn, if_pos h, session, Session.view_of_isValid h]

theorem exportLogin_of_not_isValid {c : Client ε ω} {now : Int}
    (h : c.service.session.isValid now = false) : c.exportLogin now = "" := by
  rw [exportLogin, isLoggedIn, h]
  rfl

theorem importLogin_text {l : Login} (hr : l.Readable) (ht : l.token ≠ "") {now : Int}
    (he : now < l.expiry) (c : Client ε ω) :
    c.importLogin now l.text = (.ok (), c.setSession l.toSession) := by
  have htoken : (l.token != "") = true := by simpa using ht
  have hread : (Login.ofText? l.text).filter (fun l => l.token != "") = some l := by
    rw [Login.ofText?_text hr, Option.filter_some, if_pos htoken]
  have hlive : Session.isExpired l.expiry now = false := by
    simpa [Session.isExpired] using he
  simp [importLogin, hread, hlive]

theorem importLogin_empty (now : Int) (c : Client ε ω) :
    c.importLogin now "" = (.error .invalidArgument, c) := rfl

end Client

/-- The text exported from a service with a valid session, taken in by any service before the
session runs out, leaves there the whole session in the place of the one before, and nothing else is
changed; as long as it has not run out it is seen there as it is, and exported as the same text. A
service without a valid session exports the empty text, which no service takes in. -/
theorem import_restores_exported_login (c : Client ε ω) (now : Int) :
    (c.service.session.isValid now = true → c.service.session.toLogin.Readable →
      ∀ {ε' ω' : Type} (target : Client ε' ω') (later : Int), later < c.service.session.expiry →
        let imported := target.importLogin later (c.exportLogin now)
        imported.1 = .ok () ∧ imported.2 = target.setSession c.service.session ∧
        ∀ t < c.service.session.expiry, imported.2.session t = c.service.session ∧
          imported.2.exportLogin t = c.exportLogin now) ∧
    (c.service.session.isValid now = false → c.exportLogin now = "" ∧
      ∀ {ε' ω' : Type} (target : Client ε' ω') (later : Int),
        target.importLogin later "" = (.error .invalidArgument, target)) := by
  constructor
  · intro hvalid hr ε' ω' target later hlater imported
    have htoken : c.service.session.token ≠ "" := by
      simp only [Session.isValid, Bool.and_eq_true, bne_iff_ne] at hvalid
      exact hvalid.1
    have himported : imported = (.ok (), target.setSession c.service.session) := by
      show target.importLogin later (c.exportLogin now) = _
      rw [Client.exportLogin_of_isValid hvalid]
      exact Client.importLogin_text hr htoken hlater target
    rw [himported]
    refine ⟨rfl, rfl, fun t ht => ?_⟩
    have hthen : c.service.session.isValid t = true := by
      simpa [Session.isValid, Session.isExpired, htoken] using ht
    refine ⟨Session.view_of_isValid hthen, ?_⟩
    rw [Client.exportLogin_of_isValid hvalid]
    exact Client.exportLogin_of_isValid hthen
  · intro hinvalid
    exact ⟨Client.exportLogin_of_not_isValid hinvalid,
      fun target later => Client.importLogin_empty later target⟩

/-- Quotes, controls, a name of an outer member inside the options and the ends of the number range
all come back, and a stale session gives way. -/
theorem import_restores_exported_login_of_escapes :
    let options : Json.Fields := [("\\\"", .arr [.int 18446744073709551615, .null, .obj []]),
      ("expire", .int (-9223372036854775808)), ("é\n", .obj [("", .bool true)])]
    let account : Account := ⟨"u\x00", "al\"ice", "", options, ["staff", "", "\\u0041"], "", "x"⟩
    let service (s : Session) : Service Unit := ⟨{}, {}, s, .new 1 1, 60⟩
    let source : Client Unit Unit := ⟨service ⟨"tök\ten", 5, account⟩, ⟨{}, ()⟩⟩
    let target : Client Unit Unit := ⟨service ⟨"old", 1, {}⟩, ⟨{}, ()⟩⟩
    let imported := target.importLogin 4 (source.exportLogin 2)
    (imported.1 = .ok () ∧ imported.2.session 3 = source.service.session) ∧
      (target.importLogin 4 (target.exportLogin 2)).2 = target := by
  intro options account service source target
  have hr : source.service.session.toLogin.Readable :=
    ⟨by decide +kernel, by decide, by decide, by decide +kernel⟩
  obtain ⟨hok, -, hseen⟩ :=
    (import_restores_exported_login source 2).1 (by decide +kernel) hr target 4 (by decide)
  obtain ⟨hempty, hrefused⟩ := (import_restores_exported_login target 2).2 (by decide +kernel)
  refine ⟨⟨hok, (hseen 3 (by decide)).1⟩, ?_⟩
  rw [hempty, hrefused target 4]

end AppBackend
