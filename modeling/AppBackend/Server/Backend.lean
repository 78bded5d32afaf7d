import AppBackend.Http.Target
import AppBackend.Server.Answer
import AppBackend.Transfer.Head

/-!
# The server as a backend

An engine whose transfers go to a server in the same program. Of the target only path and query
count.
-/

namespace AppBackend.Server

structure Backend where
  store : Store := {}
  calls : Nat := 0
deriving Inhabited

namespace Backend

/-- The call that a transfer makes, if its target and its headers can be sent. -/
def callOf? (t : Transfer) : Option Call := do
  let target ← Target.ofText? t.request.url
  let headers := t.request.headerPairs
  if headers.all fun p => HeaderName.isName p.1 && HeaderName.isValue p.2 then
    let body := (t.upload.map (·.content)).getD t.request.body
    some ⟨t.request.method.name, target.path, target.query.getD "", headers, body⟩
  else none

def answer (fresh : Nat → Fresh) (c : Call) (b : Backend) : Reply × Backend :=
  let (reply, store) := Server.answer b.store (fresh b.calls) c
  (reply, ⟨store, b.calls + 1⟩)

/-- Transfers to the server always get through once what they send is read. -/
def engine (fresh : Nat → Fresh) : Engine Unit Backend where
  fresh := ()
  perform _ t _ b :=
    if t.isReadable then
      match callOf? t with
      | none => (⟨[], .error (.logic "invalid request")⟩, (), b)
      | some c =>
        let (reply, b) := b.answer fresh c
        ((Head.ofStatus reply.status reply.headers).exchange [reply.body] (.ok ()), (), b)
    else (⟨[], .error unreadableUpload⟩, (), b)

theorem perform_of_readable {t : Transfer} (h : t.isReadable = true) (fresh : Nat → Fresh)
    (d : Disk) (b : Backend) :
    (engine fresh).perform d t () b =
      match callOf? t with
      | none => (⟨[], .error (.logic "invalid request")⟩, (), b)
      | some c =>
        let a := b.answer fresh c
        ((Head.ofStatus a.1.status a.1.headers).exchange [a.1.body] (.ok ()), (), a.2) := by
  simp only [engine, if_pos h]

theorem perform_of_unreadable {t : Transfer} (h : t.isReadable = false) (fresh : Nat → Fresh)
    (d : Disk) (b : Backend) :
    (engine fresh).perform d t () b = (⟨[], .error unreadableUpload⟩, (), b) := by
  simp [engine, h]

end Backend
end AppBackend.Server
