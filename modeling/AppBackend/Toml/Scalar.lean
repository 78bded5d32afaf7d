import AppBackend.Text.Cut
import AppBackend.Text.Hex
import AppBackend.Text.Numeral
import AppBackend.Time.Calendar
import AppBackend.Toml.Value

/-!
# TOML scalars

Values that are written without quotes: truth values, whole numbers in four bases, numbers with a
fraction or an exponent, and moments. The letters of a scalar are cut out first and then read as a
whole.
-/

namespace AppBackend.Toml

def isScalarChar (c : Char) : Bool :=
  ('a' ≤ c && c ≤ 'z') || ('A' ≤ c && c ≤ 'Z') || Numeral.isDigit c || c == '+' || c == '-'
    || c == '_' || c == '.' || c == ':'

/-! ### Numbers -/

/-- Digits with single underscores between them, as the digits alone. -/
def digits? (isDigit : Char → Bool) (cs : List Char) : Option (List Char) :=
  let groups := Text.split '_' cs
  if groups.all fun g => !g.isEmpty && g.all isDigit then some groups.flatten else none

/-- Decimal digits that do not begin with a zero, unless there is just the zero. -/
def decimal? (cs : List Char) : Option (List Char) :=
  (digits? Numeral.isDigit cs).filter fun ds => ds.length = 1 || ds.head? != some '0'

def based? (base : Nat) (cs : List Char) : Option Int :=
  let isDigit (c : Char) : Bool := match Hex.value? c with
    | some v => v < base
    | none => false
  (digits? isDigit cs).map fun ds =>
    ds.foldl (fun n c => n * base + ((Hex.value? c).getD 0 : Int)) 0

/-- A sign, if there is one, as whether it is minus, and the text after it. -/
def sign (cs : List Char) : Bool × List Char :=
  match cs with
  | '+' :: cs => (false, cs)
  | '-' :: cs => (true, cs)
  | cs => (false, cs)

def int? (cs : List Char) : Option Int :=
  match cs with
  | '0' :: 'x' :: cs => based? 16 cs
  | '0' :: 'o' :: cs => based? 8 cs
  | '0' :: 'b' :: cs => based? 2 cs
  | cs =>
    let (minus, cs) := sign cs
    (decimal? cs).map fun ds => if minus then -(Numeral.value ds : Int) else Numeral.value ds

def isExponent (cs : List Char) : Bool := (digits? Numeral.isDigit (sign cs).2).isSome

/-- A number with a fraction, an exponent or both, or one that is no number or without bound. -/
def isFloat (cs : List Char) : Bool :=
  let cs := (sign cs).2
  if cs = ['i', 'n', 'f'] ∨ cs = ['n', 'a', 'n'] then true
  else
    let mantissa := cs.takeWhile fun c => c != 'e' && c != 'E'
    let exponent := cs.drop mantissa.length
    let hasExponent := exponent != []
    match Text.cut? '.' mantissa with
    | some (whole, fraction) =>
      (decimal? whole).isSome && (digits? Numeral.isDigit fraction).isSome
        && (!hasExponent || isExponent (exponent.drop 1))
    | none => hasExponent && (decimal? mantissa).isSome && isExponent (exponent.drop 1)

/-! ### Moments -/

def two? : List Char → Option (Nat × List Char)
  | a :: b :: cs =>
    if Numeral.isDigit a ∧ Numeral.isDigit b then some (Numeral.value [a, b], cs) else none
  | _ => none

def date? (cs : List Char) : Option (List Char) := do
  let (century, cs) ← two? cs
  let (year, cs) ← two? cs
  let ('-' :: cs) := cs | none
  let (month, cs) ← two? cs
  let ('-' :: cs) := cs | none
  let (day, cs) ← two? cs
  let d : Time.Date := ⟨(century * 100 + year : Nat), month, day⟩
  if d.isValid then some cs else none

/-- The text after a time of day; seconds and their fraction may be missing. -/
def time? (cs : List Char) : Option (List Char) := do
  let (hour, cs) ← two? cs
  let (':' :: cs) := cs | none
  let (minute, cs) ← two? cs
  if 24 < hour ∨ 59 < minute then none
  match cs with
  | ':' :: cs =>
    let (second, cs) ← two? cs
    if 60 < second then none
    match cs with
    | '.' :: cs =>
      let fraction := cs.takeWhile Numeral.isDigit
      if fraction = [] then none else some (cs.drop fraction.length)
    | cs => some cs
  | cs => some cs

/-- Hours and minutes, a day at most. -/
def isHours (cs : List Char) : Bool :=
  match two? cs with
  | some (hour, ':' :: cs) =>
    match two? cs with
    | some (minute, []) => hour * 60 + minute ≤ 24 * 60
    | _ => false
  | _ => false

def isOffset (cs : List Char) : Bool :=
  match cs with
  | [] => true
  | ['Z'] => true
  | ['z'] => true
  | '+' :: cs => isHours cs
  | '-' :: cs => isHours cs
  | _ => false

def isMoment (cs : List Char) : Bool :=
  match date? cs with
  | some [] => true
  | some (c :: cs) =>
    (c == 'T' || c == 't' || c == ' ') && ((time? cs).map isOffset).getD false
  | none => time? cs == some []

/-! ### Scalars -/

/-- The letters of a scalar and the text after them. A date and a time may have a space between
them. -/
def scalarText (cs : List Char) : List Char × List Char :=
  let first := cs.takeWhile isScalarChar
  let rest := cs.drop first.length
  match date? first, rest with
  | some [], ' ' :: d :: more =>
    if Numeral.isDigit d then
      let second := (d :: more).takeWhile isScalarChar
      (first ++ ' ' :: second, (d :: more).drop second.length)
    else (first, rest)
  | _, _ => (first, rest)

def scalar? (cs : List Char) : Option (Value × List Char) :=
  let (text, rest) := scalarText cs
  let value : Option Value :=
    if text = ['t', 'r', 'u', 'e'] then some (.bool true)
    else if text = ['f', 'a', 'l', 's', 'e'] then some (.bool false)
    else match int? text with
      | some n => some (.int n)
      | none =>
        if isFloat text then some .float
        else if isMoment text then some .moment
        else none
  value.map fun v => (v, rest)

end AppBackend.Toml
