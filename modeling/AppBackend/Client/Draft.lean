import AppBackend.Client.Failure
import AppBackend.Http.Names
import AppBackend.Http.Request
import AppBackend.Text.Percent

/-!
# Drafts

A request being put together. A draft starts from the caller's credentials and session and takes
steps; `build` turns it into a request. A draft whose credentials lack a required part takes no
steps, and `request` refuses it. Main statements: `apply_of_missing`, such a draft stays as it is,
and `missing?_apply`, no step changes what is missing.
-/

namespace AppBackend

/-- Who talks to which service. The proxy may be empty, the rest may not. -/
structure Credentials where
  endpoint : String := ""
  tenant : String := ""
  appId : String := ""
  appKey : String := ""
  proxy : String := ""
deriving DecidableEq, Inhabited

def Credentials.missing? (c : Credentials) : Option Failure :=
  if c.endpoint = "" then some .noEndpoint
  else if c.tenant = "" then some .noTenant
  else if c.appId = "" then some .noAppId
  else if c.appKey = "" then some .noAppKey
  else none

theorem Credentials.full_of_complete {k : Credentials} (h : k.missing? = none) :
    k.appId ≠ "" ∧ k.appKey ≠ "" := by
  unfold missing? at h
  split at h
  · cases h
  split at h
  · cases h
  split at h
  · cases h
  split at h
  · cases h
  · rename_i hid hkey
    exact ⟨hid, hkey⟩

structure Draft where
  credentials : Credentials
  /-- Empty without a valid session. -/
  sessionToken : String
  options : TransportOptions
  method : Method := .get
  path : String := ""
  params : Pairs := []
  headers : Pairs := []
  body : Bytes := []
  withSession : Bool := true
deriving DecidableEq

namespace Draft

def missing? (d : Draft) : Option Failure := d.credentials.missing?

/-! ### Steps -/

inductive Step where
  | target (method : Method) (path : String)
  | appendPath (path : String)
  /-- Replaces all parameters. -/
  | params (pairs : Pairs)
  | appendParam (key value : String)
  /-- Replaces all headers. -/
  | headers (pairs : Pairs)
  | appendHeader (name value : String)
  | body (bytes : Bytes)
  | withoutSession
deriving DecidableEq

def isFull (p : String × String) : Bool := p.1 != "" && p.2 != ""

theorem isFull_iff {p : String × String} : isFull p = true ↔ p.1 ≠ "" ∧ p.2 ≠ "" := by
  rw [isFull, Bool.and_eq_true, bne_iff_ne, bne_iff_ne]

/-- One step on a draft that lacks nothing. A single pair with an empty half is not taken. -/
def change (d : Draft) : Step → Draft
  | .target method path => { d with method, path }
  | .appendPath path => { d with path := d.path ++ path }
  | .params pairs => { d with params := pairs }
  | .appendParam key value =>
    if isFull (key, value) then { d with params := d.params ++ [(key, value)] } else d
  | .headers pairs => { d with headers := pairs }
  | .appendHeader name value =>
    if isFull (name, value) then { d with headers := d.headers ++ [(name, value)] } else d
  | .body bytes => { d with body := bytes }
  | .withoutSession => { d with withSession := false }

theorem change_appendParam (d : Draft) (key value : String) :
    d.change (.appendParam key value)
      = { d with params := d.params ++ [(key, value)].filter isFull } := by
  by_cases h : isFull (key, value) = true
  · simp [change, h]
  · simp [change, h]

theorem change_appendHeader (d : Draft) (name value : String) :
    d.change (.appendHeader name value)
      = { d with headers := d.headers ++ [(name, value)].filter isFull } := by
  by_cases h : isFull (name, value) = true
  · simp [change, h]
  · simp [change, h]

def apply (d : Draft) (s : Step) : Draft := if d.missing?.isSome then d else d.change s

def applyAll (d : Draft) (ss : List Step) : Draft := ss.foldl apply d

theorem credentials_change (d : Draft) (s : Step) : (d.change s).credentials = d.credentials := by
  cases s <;> simp only [change] <;> (try split) <;> rfl

theorem missing?_apply (d : Draft) (s : Step) : (d.apply s).missing? = d.missing? := by
  unfold apply
  split
  · rfl
  · simp [missing?, credentials_change]

theorem apply_of_missing {d : Draft} (h : d.missing?.isSome = true) (s : Step) : d.apply s = d := by
  simp [apply, h]

theorem apply_of_complete {d : Draft} (h : d.missing? = none) (s : Step) :
    d.apply s = d.change s := by
  simp [apply, h]

theorem applyAll_of_missing {d : Draft} (h : d.missing?.isSome = true) (ss : List Step) :
    d.applyAll ss = d := by
  induction ss with
  | nil => rfl
  | cons s ss ih => rw [applyAll, List.foldl_cons, apply_of_missing h s]; exact ih

theorem applyAll_of_complete {d : Draft} (h : d.missing? = none) (ss : List Step) :
    d.applyAll ss = ss.foldl change d := by
  induction ss generalizing d with
  | nil => rfl
  | cons s ss ih =>
    have hs : (d.change s).missing? = none := by
      rw [← apply_of_complete h s, missing?_apply, h]
    rw [applyAll, List.foldl_cons, apply_of_complete h s]
    exact ih hs

/-- What no step changes, no steps change. -/
theorem applyAll_eq_of_change {α : Type} (f : Draft → α) (h : ∀ d s, f (d.change s) = f d)
    (d : Draft) (ss : List Step) : f (d.applyAll ss) = f d := by
  induction ss generalizing d with
  | nil => rfl
  | cons s ss ih =>
    rw [applyAll, List.foldl_cons, ← applyAll, ih, apply]
    split
    · rfl
    · exact h d s

theorem credentials_applyAll (d : Draft) (ss : List Step) :
    (d.applyAll ss).credentials = d.credentials :=
  applyAll_eq_of_change credentials credentials_change d ss

theorem missing?_applyAll (d : Draft) (ss : List Step) : (d.applyAll ss).missing? = d.missing? :=
  congrArg Credentials.missing? (credentials_applyAll d ss)

theorem sessionToken_change (d : Draft) (s : Step) :
    (d.change s).sessionToken = d.sessionToken := by
  cases s <;> simp only [change] <;> (try split) <;> rfl

theorem sessionToken_applyAll (d : Draft) (ss : List Step) :
    (d.applyAll ss).sessionToken = d.sessionToken :=
  applyAll_eq_of_change sessionToken sessionToken_change d ss

theorem options_change (d : Draft) (s : Step) : (d.change s).options = d.options := by
  cases s <;> simp only [change] <;> (try split) <;> rfl

theorem options_applyAll (d : Draft) (ss : List Step) : (d.applyAll ss).options = d.options :=
  applyAll_eq_of_change options options_change d ss

/-! ### The target -/

def paramText (p : String × String) : List Char := Percent.encode p.1 ++ '=' :: Percent.encode p.2

/-- The parameters with both halves, after a question mark; nothing without any. -/
def query (params : Pairs) : List Char :=
  match params.filter isFull with
  | [] => []
  | ps => '?' :: Text.joined '&' (ps.map paramText)

def url (d : Draft) : String :=
  let slash := if d.credentials.endpoint.toList.getLast? = some '/' then "" else "/"
  d.credentials.endpoint ++ slash ++ "1/" ++ d.credentials.tenant ++ d.path
    ++ String.ofList (query d.params)

/-! ### Headers -/

def isAgent (p : String × String) : Bool := Text.sameName p.1 HeaderName.userAgent

def namesAgent (ps : Pairs) : Bool := ps.any fun p => isAgent p && p.2 != ""

/-- Leaves out every user agent that a later one overrides. -/
def lastAgent : Pairs → Pairs
  | [] => []
  | p :: ps => if isAgent p && namesAgent ps then lastAgent ps else p :: lastAgent ps

/-- The caller's headers, then who is asking, then the session, then a user agent if the caller
named none. -/
def headerPairs (d : Draft) : Pairs :=
  let session := if d.withSession then [(HeaderName.sessionToken, d.sessionToken)] else []
  let agent := if namesAgent d.headers then [] else [(HeaderName.userAgent, defaultUserAgent)]
  let all := lastAgent d.headers
    ++ [(HeaderName.appId, d.credentials.appId), (HeaderName.appKey, d.credentials.appKey)]
    ++ session ++ agent
  all.filter isFull

/-- The request that the draft describes, whether or not its credentials are complete. -/
def build (d : Draft) : Request where
  url := d.url
  method := d.method
  headers := d.headerPairs.map fun p => Request.headerLine p.1 p.2
  body := d.body
  proxy := d.credentials.proxy
  options := d.options

def request (d : Draft) : Except Failure Request :=
  match d.missing? with
  | some f => .error f
  | none => .ok d.build

end Draft
end AppBackend
