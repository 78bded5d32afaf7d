import AppBackend.Text.Cut
import AppBackend.Text.Percent

/-!
# Form-coded queries

The part of a target after `?` as key and value pairs: pieces between `&`, each cut at its first
`=`, with `+` for a space and percent coding for the rest. Octets that are no text read as U+FFFD.
-/

namespace AppBackend.Form

def decodePart (cs : List Char) : String :=
  Utf8.lossy (Percent.decode (Utf8.encode (cs.map fun c => if c = '+' then ' ' else c)))

/-- One piece; without `=` the value is empty. -/
def decodePiece (cs : List Char) : String × String :=
  match Text.cut? '=' cs with
  | some (k, v) => (decodePart k, decodePart v)
  | none => (decodePart cs, "")

/-- The pairs of a query in order; an empty piece is no pair. -/
def pairs (query : List Char) : List (String × String) :=
  ((Text.split '&' query).filter fun p => !p.isEmpty).map decodePiece

def get? (ps : List (String × String)) (key : String) : Option String :=
  (ps.reverse.find? fun p => p.1 == key).map (·.2)

end AppBackend.Form
