import AppBackend.Transfer.Disk
import AppBackend.Transfer.Transcript

/-!
# Downloads

A transfer whose body goes to a file. Once a body chunk comes with status 200, the status is fixed
and chunks are written to the file; chunks of any other reply are kept with its header lines, so
that an error reply stays readable. Main statement: `written_accept`, as long as no chunk is refused
the count of octets written is the length of the file.
-/

namespace AppBackend

/-- Where a download goes: a file that starts empty, or the device that takes no octets. -/
inductive Destination where
  | file (content : Bytes)
  | fullDevice
deriving DecidableEq

namespace Destination

/-- The octets appended; the flag is false when some were refused. A file takes as many as it has
room for. -/
def append (room : Option Nat) : Destination → Bytes → Destination × Bool
  | .file content, bytes =>
    match room with
    | none => (.file (content ++ bytes), true)
    | some n => (.file ((content ++ bytes).take n), content.length + bytes.length ≤ n)
  | .fullDevice, bytes => (.fullDevice, bytes.isEmpty)

def content : Destination → Bytes
  | .file content => content
  | .fullDevice => []

/-- Octets that are not refused are all in the file. -/
theorem content_append {room : Option Nat} {d d' : Destination} {bytes : Bytes}
    (h : d.append room bytes = (d', true)) : d'.content = d.content ++ bytes := by
  cases d with
  | file content =>
    cases room with
    | none =>
      simp only [append, Prod.mk.injEq] at h
      rw [← h.1]
      rfl
    | some n =>
      simp only [append, Prod.mk.injEq, decide_eq_true_eq] at h
      rw [← h.1, Destination.content, List.take_of_length_le (by simpa using h.2)]
      rfl
  | fullDevice =>
    simp only [append, Prod.mk.injEq, List.isEmpty_iff] at h
    rw [← h.1, h.2]
    rfl

end Destination

structure Download where
  transcript : Transcript := {}
  destination : Destination := .file []
  room : Option Nat := none
  /-- The status, once a body chunk has come with one. -/
  status : Nat := 0
  /-- The count of octets written. -/
  written : Nat := 0
deriving DecidableEq

namespace Download

def begin (destination : Destination) : Download := { destination }

def within (d : Download) (room : Option Nat) : Download := { d with room }

/-- The status that counts for a chunk that comes now. -/
def currentStatus (d : Download) : Nat := if d.status = 0 then d.transcript.status else d.status

/-- One event; the flag is false when the destination refused a chunk. -/
def accept (d : Download) : Event → Download × Bool
  | .header line => ({ d with transcript := d.transcript.accept (.header line) }, true)
  | .chunk bytes =>
    let d := { d with status := d.currentStatus }
    if d.status = 200 then
      match d.destination.append d.room bytes with
      | (destination, true) =>
        ({ d with destination, written := d.written + bytes.length }, true)
      | (destination, false) => ({ d with destination }, false)
    else ({ d with transcript := d.transcript.accept (.chunk bytes) }, true)

def acceptAll (d : Download) : List Event → Download × Bool
  | [] => (d, true)
  | e :: es =>
    match d.accept e with
    | (d', true) => d'.acceptAll es
    | (d', false) => (d', false)

def response (d : Download) : Response := d.transcript.response

/-! ### The count of octets -/

theorem written_accept {d d' : Download} (h : d.written = d.destination.content.length) {e : Event}
    (he : d.accept e = (d', true)) : d'.written = d'.destination.content.length := by
  cases e with
  | header line =>
    rw [← (Prod.mk.inj he).1]
    exact h
  | chunk bytes =>
    simp only [accept] at he
    split at he
    · split at he
      · rename_i destination ha
        rw [← (Prod.mk.inj he).1]
        simp [Destination.content_append ha, h]
      · simp at he
    · rw [← (Prod.mk.inj he).1]
      exact h

end Download
end AppBackend
