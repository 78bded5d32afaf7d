import AppBackend.Text.Cut

/-!
# Targets

The place that a request is sent to: scheme and authority, where they are given, then path and
query. A fragment at the end is passed over. Header names and values are checked here too, since
both belong to a request that can be sent at all.
-/

namespace AppBackend

structure Target where
  scheme : Option String := none
  authority : Option String := none
  path : String := ""
  query : Option String := none
deriving DecidableEq

namespace Target

/-- The octets of the longest target. -/
def maxOctets : Nat := 65534

/-! ### Schemes -/

def isSchemeChar (c : Char) : Bool := c.isAlphanum || "+-.".toList.contains c

def maxScheme : Nat := 64

/-- The scheme before `://` and what follows it; the scheme in lower case if it is a usual one. -/
def scheme? (cs : List Char) : Option (String × List Char) :=
  match Text.cut? ':' cs with
  | some (name, '/' :: '/' :: rest) =>
    let s := String.ofList name
    let usual := ["http", "https"].find? (Text.sameName s)
    match usual with
    | some known => some (known, rest)
    | none => if name.all isSchemeChar then some (s, rest) else none
  | _ => none

/-! ### Authorities -/

/-- The characters of an authority beside the percent sign. -/
def isAuthorityChar (c : Char) : Bool :=
  c.isAlphanum || "!$&'()*+,-.:;=@[]_~".toList.contains c

structure Seen where
  colons : Nat := 0
  opened : Bool := false
  closed : Bool := false
  percent : Bool := false
  /-- Nothing after an at sign yet. -/
  owner : Bool := false

/-- The colons that may stand before they are known to belong to a host or an owner. -/
def maxColons : Nat := 8

/-- One character. Colons and percent signs count anew after an owner and after a bracketed host. -/
def Seen.step (s : Seen) (c : Char) : Option Seen :=
  let s' := { s with owner := false }
  match c with
  | ':' => if maxColons ≤ s.colons then none else some { s' with colons := s.colons + 1 }
  | '[' => if s.percent || s.opened then none else some { s' with opened := true }
  | ']' =>
    if !s.opened || s.closed then none
    else some { s' with closed := true, colons := 0, percent := false }
  | '@' => some { s with owner := true, colons := 0, percent := false }
  | '%' => some { s' with percent := true }
  | c => if isAuthorityChar c then some s' else none

/-- A whole authority has at most one colon after its host. -/
def Seen.isWhole (s : Seen) : Bool :=
  s.opened == s.closed && s.colons ≤ 1 && !s.percent && !s.owner

def isAuthority (cs : List Char) : Bool :=
  ((cs.foldlM Seen.step {}).map Seen.isWhole).getD false

/-! ### Path and query -/

def isPathChar (c : Char) : Bool :=
  let n := c.toNat
  n == 0x21 || n == 0x22 || (0x24 ≤ n && n ≤ 0x3B) || n == 0x3D || (0x40 ≤ n && n ≤ 0x5F)
    || (0x61 ≤ n && n ≤ 0x7E) || 0x7F ≤ n

def isQueryChar (c : Char) : Bool :=
  let n := c.toNat
  n == 0x21 || (0x24 ≤ n && n ≤ 0x3B) || n == 0x3D || 0x3F ≤ n

def withoutFragment (cs : List Char) : List Char := cs.takeWhile (· != '#')

/-- Path and query after an authority, or alone. -/
def pathAndQuery? (cs : List Char) : Option (String × Option String) :=
  let cs := withoutFragment cs
  let (path, query) := match Text.cut? '?' cs with
    | some (path, query) => (path, some query)
    | none => (cs, none)
  if path.all isPathChar && (query.getD []).all isQueryChar then
    some (String.ofList path, query.map String.ofList)
  else none

def endsAuthority (c : Char) : Bool := c == '/' || c == '?' || c == '#'

def ofChars? (cs : List Char) : Option Target :=
  match cs with
  | [] => none
  | ['*'] => some { path := "*" }
  | '/' :: _ => (pathAndQuery? cs).map fun (path, query) => { path, query }
  | _ =>
    match scheme? cs with
    | none => if isAuthority cs then some { authority := some (String.ofList cs) } else none
    | some (scheme, rest) =>
      let authority := rest.takeWhile fun c => !endsAuthority c
      if authority.isEmpty || maxScheme < scheme.length || !isAuthority authority then none
      else (pathAndQuery? (rest.drop authority.length)).map fun (path, query) =>
        { scheme := some scheme, authority := some (String.ofList authority),
          path := if path = "" then "/" else path, query }

def ofText? (s : String) : Option Target :=
  if maxOctets < Text.octetCount s.toList then none else ofChars? s.toList

end Target

/-! ### Headers that can be sent -/

namespace HeaderName

def isNameChar (c : Char) : Bool := c.isAlphanum || "!#$%&'*+-.^_`|~".toList.contains c

def isName (s : String) : Bool :=
  s != "" && Text.octetCount s.toList < 0x10000 && s.toList.all isNameChar

/-- Values hold no controls but the tab. -/
def isValue (s : String) : Bool :=
  s.toList.all fun c => (32 ≤ c.toNat && c.toNat != 127) || c == '\t'

end HeaderName
end AppBackend
