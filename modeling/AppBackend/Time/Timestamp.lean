import AppBackend.Text.Numeral
import AppBackend.Time.Calendar

/-!
# Timestamps

Instants with nanoseconds, read from texts that give a date, a time and an offset, and written in
universal time. Date and time may be spelled with separators or without; minutes and seconds may be
missing, a 60th second counts as the 59th, and a bracketed zone or note after the offset is checked
for its form and passed over.
-/

namespace AppBackend

structure Timestamp where
  second : Int
  nano : Nat
deriving DecidableEq

namespace Timestamp

/-- The instants that a text can give. -/
def minSecond : Int := -377705023201

def maxSecond : Int := 253402207200

/-! ### Reading -/

/-! Each reader takes a part from the front of a text and leaves the text after it. -/

def digits? (n : Nat) (cs : List Char) : Option (Nat × List Char) :=
  let ds := cs.take n
  if ds.length = n ∧ ds.all Numeral.isDigit then some (Numeral.value ds, cs.drop n) else none

def upTo? (n most : Nat) (cs : List Char) : Option (Nat × List Char) :=
  match digits? n cs with
  | some (v, rest) => if v ≤ most then some (v, rest) else none
  | none => none

/-- Four digits, or a sign and six; the zeroth year has no minus sign. -/
def year? (cs : List Char) : Option (Int × List Char) :=
  match cs with
  | '+' :: cs => (digits? 6 cs).map fun (v, rest) => ((v : Int), rest)
  | '-' :: cs =>
    (digits? 6 cs).bind fun (v, rest) => if v = 0 then none else some (-(v : Int), rest)
  | cs => (digits? 4 cs).map fun (v, rest) => ((v : Int), rest)

/-- Year, month and day, with hyphens between all of them or none. -/
def date? (cs : List Char) : Option (Time.Date × List Char) := do
  let (year, cs) ← year? cs
  let hyphens := cs.head? == some '-'
  let separate (cs : List Char) : Option (List Char) :=
    match hyphens, cs with
    | true, '-' :: cs => some cs
    | true, _ => none
    | false, cs => some cs
  let cs ← separate cs
  let (month, cs) ← digits? 2 cs
  let cs ← separate cs
  let (day, cs) ← digits? 2 cs
  let d : Time.Date := ⟨year, month, day⟩
  if d.isValid then some (d, cs) else none

/-- One to nine digits after a point or a comma, as nanoseconds. -/
def fraction? (cs : List Char) : Option (Nat × List Char) :=
  match cs with
  | [] => some (0, [])
  | c :: rest =>
    if c = '.' ∨ c = ',' then
      let ds := (rest.take 9).takeWhile Numeral.isDigit
      if ds = [] then none
      else some (Numeral.value ds * Nat.pow 10 (9 - ds.length), rest.drop ds.length)
    else some (0, cs)

/-- The text of the next two-digit part, if there is one: after a colon where colons are used, else
at once. -/
def nextPart? (colons : Bool) (cs : List Char) : Option (List Char) :=
  if colons then
    match cs with
    | ':' :: cs => some cs
    | _ => none
  else if (digits? 2 cs).isSome then some cs
  else none

/-- A clock reading: seconds after midnight and nanoseconds. -/
def clock? (cs : List Char) : Option ((Nat × Nat) × List Char) := do
  let (hour, cs) ← upTo? 2 23 cs
  let colons := cs.head? == some ':'
  match nextPart? colons cs with
  | none => some ((hour * 3600, 0), cs)
  | some cs =>
    let (minute, cs) ← upTo? 2 59 cs
    match nextPart? colons cs with
    | none => some ((hour * 3600 + minute * 60, 0), cs)
    | some cs =>
      let (second, cs) ← upTo? 2 60 cs
      let (nano, cs) ← fraction? cs
      some ((hour * 3600 + minute * 60 + min second 59, nano), cs)

/-- Hours, minutes and seconds after a sign, in seconds; `fine` allows seconds. A fraction of a
second is rounded. -/
def signedOffset? (fine : Bool) (cs : List Char) : Option (Nat × List Char) := do
  let (hour, cs) ← upTo? 2 25 cs
  let colons := cs.head? == some ':'
  match nextPart? colons cs with
  | none => some (hour * 3600, cs)
  | some cs =>
    let (minute, cs) ← upTo? 2 59 cs
    match if fine then nextPart? colons cs else none with
    | none => some (hour * 3600 + minute * 60, cs)
    | some cs =>
      let (second, cs) ← upTo? 2 59 cs
      let (nano, cs) ← fraction? cs
      let total := hour * 3600 + minute * 60 + second + if 500000000 ≤ nano then 1 else 0
      if total < 26 * 3600 then some (total, cs) else none

def offset? (cs : List Char) : Option (Int × List Char) :=
  match cs with
  | 'Z' :: cs => some (0, cs)
  | 'z' :: cs => some (0, cs)
  | '+' :: cs => (signedOffset? true cs).map fun (v, rest) => ((v : Int), rest)
  | '-' :: cs => (signedOffset? true cs).map fun (v, rest) => (-(v : Int), rest)
  | _ => none

/-! ### Bracketed notes -/

def isLower (c : Char) : Bool := 'a' ≤ c && c ≤ 'z'

def isLetter (c : Char) : Bool := isLower c || ('A' ≤ c && c ≤ 'Z')

/-- Names with slashes between them; `start` says that a name is to begin. -/
def areNames : Bool → List Char → Bool
  | start, [] => !start
  | start, c :: cs =>
    if c = '/' then !start && areNames true cs
    else (isLetter c || c == '_' || c == '.'
      || (!start && (Numeral.isDigit c || c == '+' || c == '-'))) && areNames false cs

def isZone (cs : List Char) : Bool := areNames true cs

/-- Values with hyphens between them; `start` says that a value is to begin. -/
def areValues : Bool → List Char → Bool
  | start, [] => !start
  | start, c :: cs =>
    if c = '-' then !start && areValues true cs
    else (isLetter c || Numeral.isDigit c) && areValues false cs

def isNote (cs : List Char) : Bool :=
  let key := cs.takeWhile (· != '=')
  match key, cs.drop key.length with
  | k :: ks, _ :: vs =>
    (isLower k || k == '_')
      && ks.all (fun c => isLower c || Numeral.isDigit c || c == '_' || c == '-')
      && areValues true vs
  | _, _ => false

/-- What stands in a pair of brackets; `first` allows a zone. A note must not be marked as one that
may not be passed over. -/
def isBracketed (first : Bool) (cs : List Char) : Bool :=
  let critical := cs.head? == some '!'
  let cs := if critical then cs.drop 1 else cs
  let zone := match cs with
    | '+' :: cs => (signedOffset? false cs).map (·.2) == some []
    | '-' :: cs => (signedOffset? false cs).map (·.2) == some []
    | cs => isZone cs
  (first && zone) || (!critical && isNote cs)

def areNotes : Bool → List Char → Bool
  | _, [] => true
  | first, '[' :: cs =>
    let inner := cs.takeWhile (· != ']')
    match _h : cs.drop inner.length with
    | _ :: rest => isBracketed first inner && areNotes false rest
    | [] => false
  | _, _ => false
termination_by _ cs => cs.length
decreasing_by
  have := congrArg List.length _h
  simp only [List.length_drop, List.length_cons] at this
  simp only [List.length_cons]
  omega

def ofText? (text : String) : Option Timestamp := do
  let (date, cs) ← date? text.toList
  let c ← cs.head?
  if c = 'T' ∨ c = 't' ∨ c = ' ' then
    let ((second, nano), cs) ← clock? (cs.drop 1)
    let (offset, cs) ← offset? cs
    let total := date.toDays * 86400 + second - offset
    if areNotes true cs ∧ minSecond ≤ total ∧ total ≤ maxSecond then some ⟨total, nano⟩ else none
  else none

/-! ### Writing -/

def padded (width n : Nat) : List Char :=
  let ds := Numeral.write n
  List.replicate (width - ds.length) '0' ++ ds

def fractionText (nano : Nat) : List Char :=
  if nano = 0 then []
  else '.' :: ((padded 9 nano).reverse.dropWhile (· == '0')).reverse

def yearText (year : Int) : List Char :=
  if year < 0 then '-' :: padded 6 year.natAbs else padded 4 year.natAbs

/-- The instant in universal time; a fraction has no trailing zeros. -/
def text (t : Timestamp) : String :=
  let date := Time.Date.ofDays (t.second / 86400)
  let second := (t.second % 86400).toNat
  String.ofList (yearText date.year ++ '-' :: padded 2 date.month ++ '-' :: padded 2 date.day
    ++ 'T' :: padded 2 (second / 3600) ++ ':' :: padded 2 (second / 60 % 60)
    ++ ':' :: padded 2 (second % 60) ++ fractionText t.nano ++ ['Z'])

def ofSeconds (n : Int) : Timestamp := ⟨n, 0⟩

end Timestamp
end AppBackend
