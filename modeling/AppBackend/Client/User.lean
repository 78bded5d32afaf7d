import AppBackend.Client.Service

/-!
# Users

Logging in and out, and carrying a login from one service to another. Each operation looks at the
clock once. Main statements: `logoutBy_of_isLoggedIn` and `logoutBy_of_not_isLoggedIn`, a logout
clears the session and then asks the server, or it is refused.
-/

namespace AppBackend.Client

variable {ε ω α : Type}

/-! ### Logging in -/

def loginPath : String := "/login"

def jsonHeader : Draft.Step := .appendHeader HeaderName.contentType jsonMediaType

/-- The body of a login; a name that is empty is left out. -/
def loginBody (username email password : String) : Json :=
  let name (key value : String) : List (String × Json) :=
    if value = "" then [] else [(key, .str value)]
  .obj (Keyed.ofList
    (name "username" username ++ name "email" email ++ [("password", .str password)]))

def loginSteps (username email password : String) : List Draft.Step :=
  [.target .post loginPath, jsonHeader, .body (loginBody username email password).bytes,
    .withoutSession]

/-- What a login makes of what has become of its request. A reply with a token replaces the
session. -/
def concludeLogin (now : Int) : Outcome Response × Client ε ω → Outcome Account × Client ε ω
  | (.success r, c) =>
    match Login.ofObject? r.jsonObject with
    | some l =>
      let c := (c.setSession l.toSession).refresh now
      (.success (c.session now).account, c)
    | none => (.fatal .noStatus, c)
  | (.rest error, c) => (.rest error, c)
  | (.fatal f, c) => (.fatal f, c)

/-- Logs in by name or by mail address. -/
def login (e : Engine ε ω) (now : Int) (username email password : String) (timeout : Int)
    (c : Client ε ω) : Outcome Account × Client ε ω :=
  if (username = "" ∧ email = "") ∨ password = "" then (.fatal .invalidArgument, c)
  else concludeLogin now (c.request e now (loginSteps username email password) .plain timeout)

theorem login_of_refused {username email password : String}
    (h : (username = "" ∧ email = "") ∨ password = "") (e : Engine ε ω) (now timeout : Int)
    (c : Client ε ω) :
    c.login e now username email password timeout = (.fatal .invalidArgument, c) := if_pos h

theorem login_of_accepted {username email password : String}
    (h : ¬ ((username = "" ∧ email = "") ∨ password = "")) (e : Engine ε ω) (now timeout : Int)
    (c : Client ε ω) :
    c.login e now username email password timeout =
      concludeLogin now (c.request e now (loginSteps username email password) .plain timeout) :=
  if_neg h

/-! ### Logging out -/

def isLoggedIn (c : Client ε ω) (now : Int) : Bool := (c.service.session).isValid now

def logoutDraft (now : Int) (c : Client ε ω) : Draft :=
  (c.service.draft now).applyAll [.target .delete loginPath]

/-- A logout whose request is carried out by `body`, which is given the client as it is meanwhile.
The request is drafted with the session that there is; then the session goes, and only then is the
request carried out. -/
def logoutBy (e : Engine ε ω) (now : Int) (refuse : Failure → α)
    (body : Executor ε → Request → Client ε ω → α × Executor ε × Client ε ω) (c : Client ε ω) :
    α × Client ε ω :=
  let c := c.refresh now
  if c.isLoggedIn now then c.clearSession.execute e (c.logoutDraft now) refuse body
  else (refuse .notLoggedIn, c)

/-- What a logout makes of what has become of its request. -/
def concludeLogout (r : Outcome Response × Client ε ω) : Outcome Account × Client ε ω :=
  (r.1.map fun r => (Account.ofObject? r.jsonObject).getD {}, r.2)

def logout (e : Engine ε ω) (now : Int) (timeout : Int) (c : Client ε ω) :
    Outcome Account × Client ε ω :=
  concludeLogout (c.logoutBy e now .fatal (job e .plain timeout))

section
variable {now : Int} {c : Client ε ω}

theorem refresh_of_isLoggedIn (h : c.isLoggedIn now = true) : c.refresh now = c := by
  have hfresh : c.service.session.refresh now = c.service.session := Session.refresh_of_isValid h
  rw [refresh, Service.refresh, hfresh]

theorem isLoggedIn_refresh (now : Int) (c : Client ε ω) :
    (c.refresh now).isLoggedIn now = c.isLoggedIn now :=
  Session.isValid_refresh c.service.session now

theorem logoutBy_of_isLoggedIn (h : c.isLoggedIn now = true) (e : Engine ε ω)
    (refuse : Failure → α)
    (body : Executor ε → Request → Client ε ω → α × Executor ε × Client ε ω) :
    c.logoutBy e now refuse body
      = c.clearSession.execute e (c.logoutDraft now) refuse body := by
  rw [logoutBy, refresh_of_isLoggedIn h]
  exact if_pos h

theorem logoutBy_of_not_isLoggedIn (h : c.isLoggedIn now = false) (e : Engine ε ω)
    (refuse : Failure → α)
    (body : Executor ε → Request → Client ε ω → α × Executor ε × Client ε ω) :
    c.logoutBy e now refuse body = (refuse .notLoggedIn, c.refresh now) := by
  have hrefresh : ¬ (c.refresh now).isLoggedIn now = true := by
    rw [Bool.not_eq_true, isLoggedIn_refresh]
    exact h
  exact if_neg hrefresh

theorem logout_of_isLoggedIn (h : c.isLoggedIn now = true) (e : Engine ε ω) (timeout : Int) :
    c.logout e now timeout
      = concludeLogout (c.clearSession.send e (c.logoutDraft now) .plain timeout) := by
  rw [logout, logoutBy_of_isLoggedIn h, send]

theorem logout_of_not_isLoggedIn (h : c.isLoggedIn now = false) (e : Engine ε ω) (timeout : Int) :
    c.logout e now timeout = (.fatal .notLoggedIn, c.refresh now) := by
  rw [logout, logoutBy_of_not_isLoggedIn h]
  rfl

end

/-! ### Carrying a login over -/

def exportLogin (c : Client ε ω) (now : Int) : String :=
  if c.isLoggedIn now then (c.session now).toLogin.text else ""

def importLogin (now : Int) (text : String) (c : Client ε ω) : Except Failure Unit × Client ε ω :=
  match (Login.ofText? text).filter fun l => l.token != "" with
  | none => (.error .invalidArgument, c)
  | some l =>
    if Session.isExpired l.expiry now then (.error .sessionExpired, c)
    else (.ok (), c.setSession l.toSession)

end AppBackend.Client
