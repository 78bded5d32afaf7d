import AppBackend.Server.Route

/-!
# Answering calls

The way of a call through the server: its path is looked up, its application and session are
checked, then its method, then its handler runs. Main statements: `answer_of_unknown`, an unknown
path is not checked at all, and `answer_of_refused`, a call that is turned away changes nothing.
-/

namespace AppBackend.Server

/-- The application that may use the server. -/
def appId : String := "app-id"

def appKey : String := "app-key"

/-- Lets a call in, or says why not. A session need not be named, but one that is must be live. -/
def gate (s : Store) (now : Int) (c : Call) : Except Refusal Unit :=
  if c.header? HeaderName.appId ≠ some appId ∨ c.header? HeaderName.appKey ≠ some appKey then
    .error .wrongApplication
  else match c.header? HeaderName.sessionToken with
    | some token => if s.isLive now token then .ok () else .error .deadSession
    | none => .ok ()

namespace Route

def perform (s : Store) (f : Fresh) (c : Call) (r : Route) : Answer :=
  match r.action? c.method with
  | some a => a.run s f c
  | none => .ok (.empty 405, s)

theorem exists_action_of_takes {r : Route} {c : Call} (h : r.takes c.method = true) (s : Store)
    (f : Fresh) : ∃ a, r.action? c.method = some a ∧ r.perform s f c = a.run s f c := by
  rw [← isSome_action?, Option.isSome_iff_exists] at h
  obtain ⟨a, ha⟩ := h
  exact ⟨a, ha, by rw [perform, ha]⟩

/-- The answer of a route. A method that it does not take is turned away before its parts are
decoded. -/
def answer (s : Store) (f : Fresh) (c : Call) (r : Route) : Answer := do
  gate s f.now.second c
  if r.takes c.method then (← r.decoded).perform s f c else return (.empty 405, s)

/-- The reply as it is sent: with the methods that the route takes if the call's is none of them,
and without a body if only the head was asked for. -/
def sent (c : Call) (r : Route) (reply : Reply) : Reply :=
  let reply :=
    if r.takes c.method then reply
    else reply.withHeader Reply.allow (",".intercalate (r.methods?.getD []))
  if c.method = "HEAD" then reply.withoutBody else reply

end Route

def answer (s : Store) (f : Fresh) (c : Call) : Reply × Store :=
  match Route.ofPath? c.path with
  | none => (.empty 404, s)
  | some r =>
    match r.answer s f c with
    | .ok (reply, s) => (r.sent c reply, s)
    | .error refusal => (r.sent c refusal.reply, s)

theorem answer_of_unknown {s : Store} {f : Fresh} {c : Call} (h : Route.ofPath? c.path = none) :
    answer s f c = (.empty 404, s) := by
  simp [answer, h]

theorem answer_of_refused {s : Store} {f : Fresh} {c : Call} {r : Route} {refusal : Refusal}
    (h : Route.ofPath? c.path = some r) (hr : gate s f.now.second c = .error refusal) :
    answer s f c = (r.sent c refusal.reply, s) := by
  have : r.answer s f c = .error refusal := by
    rw [Route.answer, hr]
    rfl
  simp [answer, h, this]

end AppBackend.Server
