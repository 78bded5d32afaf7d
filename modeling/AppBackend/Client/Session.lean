import AppBackend.Client.Account

/-!
# Sessions

A token with its expiry and the account it belongs to. A session whose token is empty or whose
expiry is not in the future is not valid, and reads as the empty one until it is cleared. A login is
the text form of a session: what the server answers, and what is exported and imported.
-/

namespace AppBackend

structure Session where
  token : String := ""
  /-- Seconds since 1970 began. -/
  expiry : Int := 0
  account : Account := {}
deriving Inhabited

namespace Session

/-- An expiry counts from its own second on. -/
def isExpired (expiry now : Int) : Bool := expiry ≤ now

def isValid (s : Session) (now : Int) : Bool := s.token != "" && !isExpired s.expiry now

/-- What can be seen of a session: all of it when it is valid, else the empty one. -/
def view (s : Session) (now : Int) : Session := if s.isValid now then s else {}

def isStale (s : Session) (now : Int) : Bool := s.token != "" && isExpired s.expiry now

def clear (_ : Session) : Session := {}

def refresh (s : Session) (now : Int) : Session := if s.isStale now then s.clear else s

theorem view_of_isValid {s : Session} {now : Int} (h : s.isValid now = true) : s.view now = s := by
  simp [view, h]

theorem view_of_not_isValid {s : Session} {now : Int} (h : s.isValid now = false) :
    s.view now = {} := by simp [view, h]

theorem refresh_of_isValid {s : Session} {now : Int} (h : s.isValid now = true) :
    s.refresh now = s := by
  simp only [isValid, Bool.and_eq_true, Bool.not_eq_true'] at h
  simp [refresh, isStale, h.2]

/-- Clearing a stale session makes none valid. -/
theorem isValid_refresh (s : Session) (now : Int) :
    (s.refresh now).isValid now = s.isValid now := by
  unfold refresh
  split
  · rename_i h
    have hs : s.isValid now = false := by
      simp only [isStale, Bool.and_eq_true] at h
      simp [isValid, h.2]
    rw [hs]
    simp [clear, isValid]
  · rfl

/-- A session that is not valid never becomes valid as time goes on. -/
theorem isValid_mono {s : Session} {now later : Int} (hle : now ≤ later)
    (h : s.isValid now = false) : s.isValid later = false := by
  simp only [isValid, isExpired, Bool.and_eq_false_iff, Bool.not_eq_false', decide_eq_true_eq] at *
  rcases h with h | h
  · exact Or.inl h
  · exact Or.inr (by omega)

end Session

/-! ### Logins -/

structure Login where
  account : Account := {}
  token : String := ""
  expiry : Int := 0
deriving Inhabited

namespace Login

/-- A login is always an object, and members it does not know must be in order too. -/
def schema : Json.Schema :=
  ⟨Account.members ++ [⟨"sessionToken", .text⟩, ⟨"expire", .int64⟩], [], .refused, id⟩

def ofMembers (fs : Json.Fields) : Login where
  account := Account.ofMembers fs
  token := fs.text "sessionToken"
  expiry := ((fs.get? "expire").bind Json.int?).getD 0

def ofText? (text : String) : Option Login :=
  match schema.ofUnits (text.toList.map some) with
  | .ok fs => some (ofMembers fs)
  | .error _ => none

def ofObject? (fs : Json.Fields) : Option Login :=
  ((schema.ofFields? fs).map ofMembers).filter fun l => l.token != ""

def toMembers (l : Login) : List (String × Json) :=
  l.account.toMembers ++ [("sessionToken", .str l.token), ("expire", .int l.expiry)]

def text (l : Login) : String := (Json.obj l.toMembers).text

def toSession (l : Login) : Session := ⟨l.token, l.expiry, l.account⟩

end Login

def Session.toLogin (s : Session) : Login := ⟨s.account, s.token, s.expiry⟩

end AppBackend
