import AppBackend.Text.Base64

/-!
# PEM files

Blocks of base64 between a line that begins one and a line that ends it. Text outside blocks is
passed over, and so are blocks of an unknown kind. Reading stops at the first fault.
-/

namespace AppBackend.Pem

inductive Kind where
  | certificate
  | privateKey
  /-- A kind that is known but of no use here. -/
  | other
deriving DecidableEq

structure Block where
  kind : Kind
  content : Bytes
deriving DecidableEq

def labels : List (String × Kind) :=
  [("CERTIFICATE", .certificate), ("PRIVATE KEY", .privateKey), ("RSA PRIVATE KEY", .privateKey),
    ("EC PRIVATE KEY", .privateKey), ("PUBLIC KEY", .other), ("X509 CRL", .other),
    ("CERTIFICATE REQUEST", .other), ("ECHCONFIG", .other)]

def kind? (label : Bytes) : Option Kind :=
  (labels.find? fun p => Utf8.ofString p.1 == label).map (·.2)

/-! ### Lines -/

def dashes : String := "-----"

def beginning : Bytes := Utf8.ofString (dashes ++ "BEGIN ")

def ending (label : Bytes) : Bytes :=
  Utf8.ofString (dashes ++ "END ") ++ label ++ Utf8.ofString dashes

def lines : Bytes → List Bytes
  | [] => [[]]
  | b :: bs =>
    if b = 0x0A ∨ b = 0x0D then [] :: lines bs
    else match lines bs with
      | [] => [[b]]
      | l :: ls => (b :: l) :: ls

/-- The label of a line that begins a block: what stands before exactly five dashes at its end. -/
def label? (line : Bytes) : Option Bytes :=
  let trailer := (line.reverse.takeWhile fun b => b == 0x2D || b == 0x20).reverse
  let marks := trailer.dropWhile (· == 0x20)
  if (marks.filter (· == 0x2D)).length = dashes.length then
    some ((line.take (line.length - marks.length)).drop beginning.length)
  else none

/-! ### Blocks -/

/-- The blocks of some lines, inside a block or outside; `none` is the fault at which reading
stops. -/
def blocksFrom (label : Option Bytes) (text : Bytes) : List Bytes → List (Option Block)
  | [] => if label.isSome then [none] else []
  | line :: rest =>
    if beginning.isPrefixOf line then
      match label? line with
      | none => [none]
      | some l => blocksFrom (some l) text rest
    else match label with
      | none => blocksFrom none text rest
      | some l =>
        if (ending l).isPrefixOf line then
          match kind? l with
          | none => blocksFrom none [] rest
          | some kind =>
            match Base64.decode? text with
            | none => [none]
            | some content => some ⟨kind, content⟩ :: blocksFrom none [] rest
        else blocksFrom (some l) (text ++ line) rest

def blocks (file : Bytes) : List (Option Block) := blocksFrom none [] (lines file)

/-- The certificates among the blocks of a file, if none of them is a fault. -/
def certificates? (found : List (Option Block)) : Option (List Bytes) :=
  (found.mapM id).map fun bs => (bs.filter (·.kind == .certificate)).map (·.content)

/-- The first private key of a file, if no fault comes before it. -/
def privateKey? (file : Bytes) : Option Bytes :=
  match (blocks file).find? fun b => (b.map (·.kind)).getD .privateKey == .privateKey with
  | some (some b) => some b.content
  | _ => none

end AppBackend.Pem
