import AppBackend.Http.Status
import AppBackend.Transfer.Engine

/-!
# Heads of replies

How an engine reports a reply: a status line, a line for each header, an empty line, then the body
in chunks. The lines are what a transcript reads.
-/

namespace AppBackend

inductive HttpVersion where
  | http10
  | http11
deriving DecidableEq

def HttpVersion.text : HttpVersion → String
  | .http10 => "HTTP/1.0"
  | .http11 => "HTTP/1.1"

/-- What comes before the body of a reply. -/
structure Head where
  version : HttpVersion := .http11
  status : Nat
  reason : String
  headers : Pairs
deriving DecidableEq

namespace Head

/-- A head whose reason is the standard phrase of its code. -/
def ofStatus (status : Nat) (headers : Pairs) : Head :=
  { status, reason := Status.phrase status, headers }

def lineEnd : String := "\r\n"

def statusLine (h : Head) : String :=
  h.version.text ++ " " ++ String.ofList (Numeral.write h.status) ++ " " ++ h.reason ++ lineEnd

def lines (h : Head) : List String :=
  h.statusLine :: h.headers.map (fun p => Request.headerLine p.1 p.2 ++ lineEnd) ++ [lineEnd]

def exchange (h : Head) (chunks : List Bytes) (ending : Except TransferError Unit) : Exchange :=
  ⟨h.lines.map .header ++ chunks.map .chunk, ending⟩

end Head
end AppBackend
