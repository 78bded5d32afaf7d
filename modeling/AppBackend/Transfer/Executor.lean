import AppBackend.Client.Outcome
import AppBackend.Http.Names
import AppBackend.Text.Numeral
import AppBackend.Transfer.Engine

/-!
# Executors

An executor owns an engine and carries out one job at a time: a plain request, an upload from a
file, or a download into one. `classify` is the one place where the ending of a transfer and the
reply become an outcome.
-/

namespace AppBackend

/-- Seconds allowed when none are asked for. -/
def defaultTimeout : Int := 60

structure Executor (ε : Type) where
  engine : ε
  /-- The pool that made it, or 0. -/
  pool : Nat
  id : Nat
deriving DecidableEq

def classify (ending : Except TransferError Unit) (r : Response) : Outcome Response :=
  let verdict : Outcome Response :=
    if r.status = 0 then .fatal .noStatus
    else if r.isSuccess then .success r
    else .rest ⟨r.status, r.bodyText⟩
  match ending with
  | .ok () => verdict
  | .error e => if r.status < 300 then .fatal e.failure else verdict

/-- What is to be done, with the local path it reads or writes. -/
inductive Job where
  | plain
  | upload (path : String)
  | download (path : String)
deriving DecidableEq

/-- What a job can change: local files and the backend. -/
structure Site (ω : Type) where
  disk : Disk
  backend : ω

/-- Seconds of a timeout; one that is not positive stands for the default. -/
def effectiveTimeout (seconds : Int) : Nat :=
  (if seconds ≤ 0 then defaultTimeout else seconds).toNat

/-- The length that a reply declares for a file. -/
def declaredLength? (r : Response) : Option Nat :=
  (r.header? HeaderName.fileLength).bind fun v =>
    Numeral.read? 0x10000000000000000 (Text.trimBlank v.toList)

namespace Executor

variable {ε ω : Type}

def standalone (engine : ε) : Executor ε := ⟨engine, 0, 0⟩

def perform (e : Engine ε ω) (x : Executor ε) (t : Transfer) (s : Site ω) :
    Exchange × Executor ε × Site ω :=
  let (exchange, engine, backend) := e.perform s.disk t x.engine s.backend
  (exchange, { x with engine }, { s with backend })

def runPlain (e : Engine ε ω) (x : Executor ε) (t : Transfer) (s : Site ω) :
    Outcome Response × Executor ε × Site ω :=
  let (exchange, x, s) := perform e x t s
  (classify exchange.ending exchange.toTranscript.response, x, s)

/-- The request with the length of what is sent as a last header. -/
def withLength (r : Request) (length : Nat) : Request :=
  let line := Request.headerLine HeaderName.contentLength (String.ofList (Numeral.write length))
  { r with headers := r.headers ++ [line] }

/-- The file is opened, and the engine reads and sends it. A folder can be opened, but not read. -/
def runUpload (e : Engine ε ω) (x : Executor ε) (r : Request) (path : String) (timeout : Nat)
    (s : Site ω) : Outcome Response × Executor ε × Site ω :=
  match s.disk.node? path, r.method.sendsBody with
  | none, _ => (.fatal .localFile, x, s)
  | some _, false => (.fatal .internal, x, s)
  | some node, true =>
    let upload := Upload.ofNode node
    runPlain e x ⟨withLength r upload.length, timeout, some upload⟩ s

/-- A destination opened for writing, and the disk after that: a file is empty from then on. -/
def openDestination? (d : Disk) (path : String) : Option (Destination × Disk) :=
  if path = Disk.fullDevice then some (.fullDevice, d)
  else (d.write? path []).map fun d => (.file [], d)

def store (d : Disk) (path : String) : Destination → Disk
  | .file content => (d.write? path content).getD d
  | .fullDevice => d

/-- A download counts only if the reply declares the length that was written. -/
def verify (written : Nat) (o : Outcome Response) : Outcome Response :=
  o.andThen fun r =>
    if declaredLength? r = some written then .success r else .fatal .downloadLength

/-- The destination is made or emptied before anything else, also for a request that is then
refused. -/
def runDownload (e : Engine ε ω) (x : Executor ε) (r : Request) (path : String) (timeout : Nat)
    (s : Site ω) : Outcome Response × Executor ε × Site ω :=
  match openDestination? s.disk path with
  | none => (.fatal .localFile, x, s)
  | some (destination, disk) =>
    let s := { s with disk }
    if r.method = .get then
      let (exchange, x, s) := perform e x ⟨r, timeout, none⟩ s
      let (d, ending) := exchange.receive ((Download.begin destination).within disk.room)
      let s := { s with disk := store s.disk path d.destination }
      (verify d.written (classify ending d.response), x, s)
    else (.fatal .internal, x, s)

def run (e : Engine ε ω) (x : Executor ε) (job : Job) (r : Request) (timeout : Int) (s : Site ω) :
    Outcome Response × Executor ε × Site ω :=
  let seconds := effectiveTimeout timeout
  match job with
  | .plain => runPlain e x ⟨r, seconds, none⟩ s
  | .upload path => runUpload e x r path seconds s
  | .download path => runDownload e x r path seconds s

end Executor
end AppBackend
