import AppBackend.Client.Failure
import AppBackend.Transfer.Download

/-!
# Engines

An engine carries out transfers. It is anything that, given a transfer, reports events and an
ending; what it reports is its own affair, so every law of this library holds for all engines. A
receiver that refuses a chunk ends the transfer there with a broken one.
-/

namespace AppBackend

/-- What an engine finds in the file that it sends. -/
structure Upload where
  content : Bytes
  length : Nat
  /-- Whether its octets can be read; those of a folder cannot. -/
  readable : Bool
deriving DecidableEq

def Upload.ofNode : Disk.Node → Upload
  | .file content => ⟨content, content.length, true⟩
  | .folder => ⟨[], Disk.folderLength, false⟩

structure Transfer where
  request : Request
  /-- Seconds for the whole exchange. -/
  timeout : Nat
  upload : Option Upload := none
deriving DecidableEq

/-- Whether what is to be sent can be read to its end. -/
def Transfer.isReadable (t : Transfer) : Bool := t.upload.all (·.readable)

/-- What an engine reports: events in order, and how it ended. -/
structure Exchange where
  events : List Event
  ending : Except TransferError Unit

/-- An engine with a state `ε` of its own and a backend `ω` that all engines share. -/
structure Engine (ε ω : Type) where
  /-- The state of an engine just made. -/
  fresh : ε
  perform : Disk → Transfer → ε → ω → Exchange × ε × ω

/-- The error of a transfer whose receiver refused a chunk. -/
def refusedChunk : TransferError := .runtime "response sink rejected body"

/-- The error of a transfer whose upload cannot be read. -/
def unreadableUpload : TransferError := .runtime "cannot read upload"

namespace Exchange

def toTranscript (x : Exchange) : Transcript := x.events.foldl Transcript.accept {}

/-- An exchange received into a download, and how the transfer ended for the receiver. -/
def receive (x : Exchange) (d : Download) : Download × Except TransferError Unit :=
  match d.acceptAll x.events with
  | (d, true) => (d, x.ending)
  | (d, false) => (d, .error refusedChunk)

end Exchange
end AppBackend
