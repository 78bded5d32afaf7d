import AppBackend.Client.Draft
import AppBackend.Toml.Document
import AppBackend.Transfer.Executor

/-!
# Configuration

What a service is made from, and its text form. Keys that are absent leave their defaults, and
unknown keys are passed over; a known key with a value of the wrong kind, or a whole number beyond
64 bits anywhere that a value could be kept, makes the text unreadable.
-/

namespace AppBackend

def defaultMaxConnections : Nat := 20

structure Config where
  credentials : Credentials := {}
  options : TransportOptions := {}
  maxConnections : Nat := defaultMaxConnections
  timeout : Int := defaultTimeout
deriving DecidableEq, Inhabited

namespace Config

open Toml

mutual

def fits (low high : Int) : Value → Bool
  | .int n => low ≤ n && n ≤ high
  | .array items => fitsAll low high items
  | .table _ entries => fitsEntries low high entries
  | .tables items => fitsTables low high items
  | _ => true

def fitsAll (low high : Int) : List Value → Bool
  | [] => true
  | v :: vs => fits low high v && fitsAll low high vs

def fitsEntries (low high : Int) : List (String × Value) → Bool
  | [] => true
  | (_, v) :: es => fits low high v && fitsEntries low high es

def fitsTables (low high : Int) : List (List (String × Value)) → Bool
  | [] => true
  | es :: ts => fitsEntries low high es && fitsTables low high ts

end

/-- A value that is kept, or could be: whole numbers fit 64 bits. -/
def isKept (v : Value) : Bool := fits (-0x8000000000000000) 0xFFFFFFFFFFFFFFFF v

/-- A value that is passed over: whole numbers fit 128 bits. -/
def isReadable (v : Value) : Bool :=
  fits (-0x80000000000000000000000000000000) 0xFFFFFFFFFFFFFFFFFFFFFFFFFFFFFFFF v

/-- A value of the right kind, or the default where the key is absent. -/
def given (v : Option Value) (default : α) (read : Value → Option α) : Option α :=
  match v with
  | none => some default
  | some v => read v

def text? : Value → Option String
  | .text s => some s
  | _ => none

def flag? : Value → Option Bool
  | .bool b => some b
  | _ => none

def within? (low high : Int) : Value → Option Int
  | .int n => if low ≤ n ∧ n ≤ high then some n else none
  | _ => none

/-- The options by name or by position; a table may hold other keys. -/
def options? : Value → Option TransportOptions
  | .table _ es => do
    let entries : Entries := es
    let known := ["client_cert", "client_key", "ca_info", "ca_path", "verify_peer"]
    let path (key : String) := given (entries.get? key) none fun v => (text? v).map some
    if !(entries.all fun e => known.contains e.1 || isReadable e.2) then none
    return ⟨← path "client_cert", ← path "client_key", ← path "ca_info", ← path "ca_path",
      ← given (entries.get? "verify_peer") true flag?⟩
  | .array items => do
    let path (i : Nat) := given items[i]? none fun v => (text? v).map some
    return ⟨← path 0, ← path 1, ← path 2, ← path 3, ← given items[4]? true flag?⟩
  | .moment => some {}
  | _ => none

def ofTable? (entries : Entries) : Option Config := do
  let own := ["http_options", "max_connections", "timeout_secs"]
  if !(entries.all fun e => own.contains e.1 || isKept e.2) then none
  let text (key : String) := given (entries.get? key) "" text?
  let credentials : Credentials :=
    ⟨← text "endpoint_url", ← text "tenant_id", ← text "app_id", ← text "app_key", ← text "proxy"⟩
  let options ← given (entries.get? "http_options") {} options?
  let most ← given (entries.get? "max_connections") (defaultMaxConnections : Int)
    (within? 0 0xFFFFFFFFFFFFFFFF)
  let timeout ← given (entries.get? "timeout_secs") defaultTimeout
    (within? (-0x80000000) 0x7FFFFFFF)
  return ⟨credentials, options, most.toNat, timeout⟩

def ofText? (s : String) : Option Config := (document? s).bind fun t => ofTable? t.entries

inductive LoadError where
  | unreadable
  | invalid
deriving DecidableEq

def load (d : Disk) (path : String) : Except LoadError Config :=
  match (d.read? path).bind Utf8.text? with
  | none => .error .unreadable
  | some s => match ofText? s with
    | some c => .ok c
    | none => .error .invalid

end Config
end AppBackend
