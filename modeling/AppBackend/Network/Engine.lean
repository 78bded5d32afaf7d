import AppBackend.Network.Agent
import AppBackend.Transfer.Head

/-!
# The network engine

An engine that sends requests to a peer: first its agent, then the target and the headers of the
request, and only then the peer. Whatever fails before the peer is reached is a misuse of the
engine. How an agent is built and how a message is sent are parameters, so that both can be watched.
Main statements: `conduct_of_same` and `conduct_of_none`, a transfer with an agent at hand and one
without.
-/

namespace AppBackend.Network

structure Message where
  method : Method
  target : Target
  headers : Pairs
  body : Bytes
deriving DecidableEq

/-- What comes back: a head, the body as it arrived, and how it ended. -/
structure Delivery where
  head : Head
  chunks : List Bytes
  ending : Except TransferError Unit

/-- The far end: what an agent gets for a message. -/
abbrev Peer (ω : Type) := Agent → Message → ω → Except TransferError Delivery × ω

def unreachable {ω : Type} : Peer ω := fun _ _ w => (.error (.runtime "connection failed"), w)

/-! ### Messages -/

/-- The schemes that say by themselves where on a host to connect. -/
def isDialable (scheme : String) : Bool := proxySchemes.any (Text.sameName scheme)

/-- Where a message goes; it needs a scheme that can be spoken and an authority. -/
def destination? (url : String) : Option Target :=
  (Target.ofText? url).filter fun t =>
    (t.scheme.map isDialable).getD false && t.authority.isSome

def areSendable (headers : Pairs) : Bool :=
  headers.all fun p => HeaderName.isName p.1 && HeaderName.isValue p.2

/-- What is sent as a body: an upload, or the request's own with a method that carries one. -/
def bodyOf (t : Transfer) : Bytes :=
  match t.upload with
  | some u => u.content
  | none => if t.request.method.sendsBody then t.request.body else []

def message? (t : Transfer) : Option Message := do
  let target ← destination? t.request.url
  let headers := t.request.headerPairs
  if areSendable headers then some ⟨t.request.method, target, headers, bodyOf t⟩ else none

/-! ### The engine -/

/-- What an engine reports of an answer. -/
def report : Except TransferError Delivery → Exchange
  | .ok d => d.head.exchange d.chunks d.ending
  | .error e => ⟨[], .error e⟩

section
variable {m : Type → Type} [Monad m] (send : Agent → Message → m (Except TransferError Delivery))

/-- A transfer by an agent. -/
def deliver (agent : Agent) (t : Transfer) : m Exchange :=
  match message? t with
  | none => pure (report (.error (.logic "invalid request")))
  | some message =>
    if t.isReadable then do return report (← send agent message)
    else pure (report (.error unreadableUpload))

/-- A transfer from the agents that are made and what is sent by them. -/
def conduct (make : Settings → m (Except Fault Agent)) (t : Transfer) (kept : Kept) :
    m (Exchange × Kept) := do
  match ← obtain make (.ofTransfer t) kept with
  | (.error f, kept) => pure (report (.error f.toError), kept)
  | (.ok agent, kept) => return (← deliver send agent t, kept)

variable [LawfulMonad m] (make : Settings → m (Except Fault Agent))

theorem conduct_of_same {s : Settings} {t : Transfer} (h : s.Same (.ofTransfer t)) (a : Agent) :
    conduct send make t (some (s, a)) = (do return (← deliver send a t, some (s, a))) := by
  rw [conduct, obtain_of_same make h, pure_bind]

theorem conduct_of_none {t : Transfer} {kept : Kept} (h : atHand? (.ofTransfer t) kept = none) :
    conduct send make t kept = (do
      match ← make (.ofTransfer t) with
      | .ok a => return (← deliver send a t, some (.ofTransfer t, a))
      | .error f => pure (report (.error f.toError), kept)) := by
  rw [conduct, obtain_of_none make h, bind_assoc]
  congr 1
  funext result
  cases result with
  | ok a => rw [pure_bind]
  | error f => rw [pure_bind]

end

section
variable {ω : Type} (lib : Readers) (peer : Peer ω)

def building (d : Disk) (s : Settings) : StateM ω (Except Fault Agent) := pure (build lib d s)

def sending (agent : Agent) (message : Message) : StateM ω (Except TransferError Delivery) :=
  peer agent message

/-- The settings of the agent that is kept are those of the transfer that it was built for. -/
def engineWith : Engine Kept ω where
  fresh := none
  perform d t kept w :=
    let ((exchange, kept), w) := (conduct (sending peer) (building lib d) t kept).run w
    (exchange, kept, w)

def engine : Engine Kept ω := engineWith .usual peer

end

end AppBackend.Network
