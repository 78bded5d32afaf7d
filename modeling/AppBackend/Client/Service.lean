import AppBackend.Client.Config
import AppBackend.Client.Session
import AppBackend.Transfer.Pool

/-!
# Services

A service holds what its clients share: credentials, transport options, a session and a pool of
executors. A client is a service together with the files and the backend around it. Every request
takes the same way: a draft with the session as it is now, a refusal if credentials are missing, an
executor on loan or a refusal, the transfer, and the executor back in the pool, however the transfer
ended. Main statements: `execute_of_missing` and `execute_of_exhausted`, nothing changes when a
request is refused, and `execute_of_loan`, what happens otherwise.
-/

namespace AppBackend

structure Service (ε : Type) where
  credentials : Credentials
  options : TransportOptions
  session : Session
  pool : Pool ε
  /-- Seconds for operations that ask for none. -/
  timeout : Int

namespace Service

variable {ε : Type}

def ofConfig (pool : Nat) (c : Config) : Service ε :=
  ⟨c.credentials, c.options, {}, .new pool c.maxConnections, c.timeout⟩

/-- The timeout of an operation: what it asks for, if that is positive. -/
def timeoutFor (s : Service ε) (seconds : Int) : Int := if 0 < seconds then seconds else s.timeout

def draft (s : Service ε) (now : Int) : Draft :=
  { credentials := s.credentials, sessionToken := (s.session.view now).token, options := s.options }

def refresh (s : Service ε) (now : Int) : Service ε := { s with session := s.session.refresh now }

end Service

/-- A service, and what its operations can change beside it. -/
structure Client (ε ω : Type) where
  service : Service ε
  site : Site ω

namespace Client

variable {ε ω α : Type}

/-! ### The session -/

def setSession (c : Client ε ω) (s : Session) : Client ε ω :=
  { c with service := { c.service with session := s } }

def clearSession (c : Client ε ω) : Client ε ω := c.setSession {}

def session (c : Client ε ω) (now : Int) : Session := c.service.session.view now

def refresh (c : Client ε ω) (now : Int) : Client ε ω := { c with service := c.service.refresh now }

def setOptions (c : Client ε ω) (options : TransportOptions) : Client ε ω :=
  { c with service := { c.service with options } }

/-! ### Executors on loan -/

def checkOut (e : Engine ε ω) (c : Client ε ω) : Option (Executor ε × Client ε ω) :=
  (c.service.pool.acquire? e.fresh).map fun (x, pool) =>
    (x, { c with service := { c.service with pool } })

def giveBack (c : Client ε ω) (x : Executor ε) : Client ε ω :=
  { c with service := { c.service with pool := c.service.pool.release x } }

/-- Runs `body` with an executor on loan. The body may itself use the client; however it ends, its
answer carries that, and the executor goes back. -/
def execute (e : Engine ε ω) (d : Draft) (refuse : Failure → α)
    (body : Executor ε → Request → Client ε ω → α × Executor ε × Client ε ω) (c : Client ε ω) :
    α × Client ε ω :=
  match d.missing? with
  | some f => (refuse f, c)
  | none =>
    match c.checkOut e with
    | none => (refuse .poolExhausted, c)
    | some (x, c) =>
      let (answer, x, c) := body x d.build c
      (answer, c.giveBack x)

def job (e : Engine ε ω) (job : Job) (timeout : Int) (x : Executor ε) (r : Request)
    (c : Client ε ω) : Outcome Response × Executor ε × Client ε ω :=
  let (o, x, site) := x.run e job r (c.service.timeoutFor timeout) c.site
  (o, x, { c with site })

def send (e : Engine ε ω) (d : Draft) (what : Job) (timeout : Int) (c : Client ε ω) :
    Outcome Response × Client ε ω :=
  c.execute e d .fatal (job e what timeout)

def request (e : Engine ε ω) (now : Int) (steps : List Draft.Step) (what : Job) (timeout : Int)
    (c : Client ε ω) : Outcome Response × Client ε ω :=
  c.send e ((c.service.draft now).applyAll steps) what timeout

theorem execute_of_missing {e : Engine ε ω} {d : Draft} {f : Failure} (h : d.missing? = some f)
    (refuse : Failure → α) (body : Executor ε → Request → Client ε ω → α × Executor ε × Client ε ω)
    (c : Client ε ω) : c.execute e d refuse body = (refuse f, c) := by
  simp [execute, h]

theorem execute_of_exhausted {e : Engine ε ω} {d : Draft} (h : d.missing? = none)
    {c : Client ε ω} (hp : c.service.pool.acquire? e.fresh = none) (refuse : Failure → α)
    (body : Executor ε → Request → Client ε ω → α × Executor ε × Client ε ω) :
    c.execute e d refuse body = (refuse .poolExhausted, c) := by
  simp [execute, h, checkOut, hp]

theorem execute_of_loan {e : Engine ε ω} {d : Draft} (h : d.missing? = none) {c : Client ε ω}
    {x : Executor ε} {pool : Pool ε} (hp : c.service.pool.acquire? e.fresh = some (x, pool))
    (refuse : Failure → α)
    (body : Executor ε → Request → Client ε ω → α × Executor ε × Client ε ω) :
    c.execute e d refuse body =
      let r := body x d.build { c with service := { c.service with pool } }
      (r.1, r.2.2.giveBack r.2.1) := by
  simp [execute, h, checkOut, hp]

end Client
end AppBackend
