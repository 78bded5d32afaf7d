import AppBackend.Http.Target
import AppBackend.Network.Pem
import AppBackend.Transfer.Engine

/-!
# Agents

What carries requests over the network: a proxy, a timeout, and what the peer is checked against and
shown. An agent is built from the settings of a transfer and kept for the next one with the same
settings. Settings are compared as they stand but for their paths, of which only the parts count.
Main statements: `obtain_of_same`, an agent at hand is used as it is, and nothing is built;
`obtain_of_none`, else one is built, and it is kept unless building fails.
-/

namespace AppBackend.Network

structure Settings where
  /-- An empty text means no proxy. -/
  proxy : String
  timeout : Nat
  options : TransportOptions
deriving DecidableEq

def Settings.ofTransfer (t : Transfer) : Settings :=
  ⟨t.request.proxy, t.timeout, t.request.options⟩

/-- Settings that differ in the spelling of paths at most. -/
structure Settings.Same (s s' : Settings) : Prop where
  proxy : s.proxy = s'.proxy
  timeout : s.timeout = s'.timeout
  clientCert : s.options.clientCert.map Disk.partsOf = s'.options.clientCert.map Disk.partsOf
  clientKey : s.options.clientKey.map Disk.partsOf = s'.options.clientKey.map Disk.partsOf
  caInfo : s.options.caInfo.map Disk.partsOf = s'.options.caInfo.map Disk.partsOf
  caPath : s.options.caPath.map Disk.partsOf = s'.options.caPath.map Disk.partsOf
  verifyPeer : s.options.verifyPeer = s'.options.verifyPeer

instance (s s' : Settings) : Decidable (s.Same s') :=
  decidable_of_iff
    (s.proxy = s'.proxy ∧ s.timeout = s'.timeout ∧
      s.options.clientCert.map Disk.partsOf = s'.options.clientCert.map Disk.partsOf ∧
      s.options.clientKey.map Disk.partsOf = s'.options.clientKey.map Disk.partsOf ∧
      s.options.caInfo.map Disk.partsOf = s'.options.caInfo.map Disk.partsOf ∧
      s.options.caPath.map Disk.partsOf = s'.options.caPath.map Disk.partsOf ∧
      s.options.verifyPeer = s'.options.verifyPeer)
    ⟨fun ⟨a, b, c, d, e, f, g⟩ => ⟨a, b, c, d, e, f, g⟩,
      fun ⟨a, b, c, d, e, f, g⟩ => ⟨a, b, c, d, e, f, g⟩⟩

theorem Settings.Same.refl (s : Settings) : s.Same s := ⟨rfl, rfl, rfl, rfl, rfl, rfl, rfl⟩

/-! ### Proxies -/

structure Proxy where
  scheme : String
  authority : String
deriving DecidableEq

def proxySchemes : List String := ["http", "https", "socks4", "socks4a", "socks", "socks5"]

/-- A proxy needs an authority; without a scheme it speaks HTTP. -/
def Proxy.ofText? (s : String) : Option Proxy := do
  let target ← Target.ofText? s
  let scheme ← proxySchemes.find? (Text.sameName (target.scheme.getD "http"))
  return ⟨scheme, ← target.authority⟩

/-- How the text of a proxy and the octets of a PEM file are read. -/
structure Readers where
  proxy? : String → Option Proxy
  /-- The blocks up to the first fault. -/
  blocks : Bytes → List (Option Pem.Block)
  privateKey? : Bytes → Option Bytes

def Readers.usual : Readers := ⟨Proxy.ofText?, Pem.blocks, Pem.privateKey?⟩

/-! ### Building -/

/-- A certificate chain and its key. -/
structure Identity where
  chain : List Bytes
  key : Bytes
deriving DecidableEq

structure Agent where
  proxy : Option Proxy
  timeout : Nat
  /-- Certificates to trust in place of the usual ones, if there are any. -/
  roots : List Bytes
  identity : Option Identity
  verifyPeer : Bool
deriving DecidableEq

inductive Fault where
  | badProxy (proxy : String)
  | unreadable (path : String)
  | malformed (path : String)
  /-- A certificate without a key or the reverse. -/
  | halfIdentity
deriving DecidableEq

def Fault.message : Fault → String
  | badProxy proxy => "invalid proxy " ++ proxy ++ ": cannot be used"
  | unreadable path => "TLS material " ++ path ++ ": cannot be read"
  | malformed path => "TLS material " ++ path ++ ": malformed"
  | halfIdentity => "client certificate and key must be configured together"

/-- Bad settings are a misuse of the engine. -/
def Fault.toError (f : Fault) : TransferError := .logic f.message

def readFile (d : Disk) (path : String) : Except Fault Bytes :=
  match d.read? path with
  | some file => .ok file
  | none => .error (.unreadable path)

def parsed {α : Type} (parse : Bytes → Option α) (path : String) (file : Bytes) : Except Fault α :=
  match parse file with
  | some x => .ok x
  | none => .error (.malformed path)

/-- What a file holds. -/
def load {α : Type} (parse : Bytes → Option α) (d : Disk) (path : String) : Except Fault α := do
  parsed parse path (← readFile d path)

/-- What the files of a folder hold, taken together. -/
def loadFolder {α : Type} (parse : Bytes → Option (List α)) (d : Disk) (path : String) :
    Except Fault (List α) := do
  match d.filesIn? path with
  | none => throw (.unreadable path)
  | some files => return (← files.mapM (parsed parse path)).flatten

/-- What a path leads to, if it is set. -/
def ifSet {α : Type} (read : String → Except Fault (List α)) : Option String → Except Fault (List α)
  | some path => read path
  | none => .ok []

section
variable (lib : Readers)

def Readers.certificates? (file : Bytes) : Option (List Bytes) :=
  Pem.certificates? (lib.blocks file)

def proxy? (s : Settings) : Except Fault (Option Proxy) :=
  if s.proxy = "" then .ok none
  else match lib.proxy? s.proxy with
    | some p => .ok (some p)
    | none => .error (.badProxy s.proxy)

def roots (d : Disk) (o : TransportOptions) : Except Fault (List Bytes) := do
  let single ← ifSet (load lib.certificates? d) o.caInfo
  let folder ← ifSet (loadFolder lib.certificates? d) o.caPath
  return single ++ folder

def identity (d : Disk) (o : TransportOptions) : Except Fault (Option Identity) := do
  match o.clientCert, o.clientKey with
  | some cert, some key =>
    let chain ← load lib.certificates? d cert
    let key ← load lib.privateKey? d key
    return some ⟨chain, key⟩
  | none, none => return none
  | _, _ => throw .halfIdentity

def build (d : Disk) (s : Settings) : Except Fault Agent := do
  let proxy ← proxy? lib s
  let roots ← roots lib d s.options
  let identity ← identity lib d s.options
  return ⟨proxy, s.timeout, roots, identity, s.options.verifyPeer⟩

end

/-! ### Keeping -/

abbrev Kept := Option (Settings × Agent)

def atHand? (s : Settings) (kept : Kept) : Option Agent :=
  (kept.filter fun k => k.1.Same s).map (·.2)

section
variable {m : Type → Type} [Monad m] (make : Settings → m (Except Fault Agent))

/-- The agent at hand, else a new one, which is then kept. -/
def obtain (s : Settings) (kept : Kept) : m (Except Fault Agent × Kept) :=
  match atHand? s kept with
  | some a => pure (.ok a, kept)
  | none => do
    match ← make s with
    | .ok a => pure (.ok a, some (s, a))
    | .error f => pure (.error f, kept)

theorem obtain_of_same {s s' : Settings} (h : s.Same s') (a : Agent) :
    obtain make s' (some (s, a)) = pure (.ok a, some (s, a)) := by
  simp [obtain, atHand?, Option.filter, h]

theorem obtain_of_none {s : Settings} {kept : Kept} (h : atHand? s kept = none) :
    obtain make s kept = (do
      match ← make s with
      | .ok a => pure (.ok a, some (s, a))
      | .error f => pure (.error f, kept)) := by
  rw [obtain, h]

end

end AppBackend.Network
