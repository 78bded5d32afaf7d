import AppBackend.Transfer.Engine

/-!
# Replay

An engine that answers every transfer with the same exchange and keeps a record of the transfers it
was asked for, as far as it could read what they send.
-/

namespace AppBackend

structure Replay where
  exchange : Exchange := ⟨[], .ok ()⟩
  seen : List Transfer := []

namespace Replay

def engine : Engine Unit Replay where
  fresh := ()
  perform _ t _ r :=
    if t.isReadable then (r.exchange, (), { r with seen := t :: r.seen })
    else (⟨[], .error unreadableUpload⟩, (), r)

def drain (r : Replay) : List Transfer × Replay := (r.seen.reverse, { r with seen := [] })

end Replay
end AppBackend
