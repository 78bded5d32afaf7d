import AppBackend.Json.Basic
import AppBackend.Text.Hex
import AppBackend.Text.Numeral

/-!
# JSON tokens

Text as a list of tokens. The scanner reads one unit at a time and never looks ahead: a state says
what is under way, and a character that cannot continue a number ends it and is looked at afresh.
Text that begins no token is the token `fault`, after which nothing is read. A string that is well
formed but stands for no text (a lone surrogate, octets that are no UTF-8) is `text none`, so that a
reader that skips it can accept it.
-/

namespace AppBackend.Json

/-! ### Numbers -/

structure Literal where
  negative : Bool
  whole : List Char
  fraction : Option (List Char)
  /-- The sign and the digits of the exponent. -/
  exponent : Option (Bool × List Char)
deriving DecidableEq

namespace Literal

/-- The largest significand that is kept. -/
def significandMax : Nat := 0xFFFFFFFFFFFFFFFF

/-- Digits of the whole part into a significand: from the first digit that does not fit, each digit
counts as a power of ten only. -/
def takeWhole (m : Nat) : List Char → Nat × Int
  | [] => (m, 0)
  | c :: cs =>
    let m' := m * 10 + Numeral.digitValue c
    if m' ≤ significandMax then takeWhole m' cs else (m, ((c :: cs).length : Int))

/-- Digits of the fraction into the significand: from the first digit that does not fit, digits are
dropped. -/
def takeFraction (m : Nat) (e : Int) : List Char → Nat × Int
  | [] => (m, e)
  | c :: cs =>
    let m' := m * 10 + Numeral.digitValue c
    if m' ≤ significandMax then takeFraction m' (e - 1) cs else (m, e)

/-- The binary64 number of a literal; `none` where it is too large. An exponent of more than 31 bits
makes the number zero or too large whatever its digits. -/
def float? (l : Literal) : Option Double :=
  let (m, e) := takeWhole 0 l.whole
  let (m, e) := takeFraction m e (l.fraction.getD [])
  let scaled := match l.exponent with
    | none => Double.ofDecimal? m e
    | some (down, ds) =>
      let n : Nat := Numeral.value ds
      if n < 0x80000000 then Double.ofDecimal? m (if down then e - n else e + n)
      else if down ∨ m = 0 then some Double.zero
      else none
  if l.negative then scaled.map Double.neg else scaled

/-- The value of a literal: whole where it is spelled without fraction and exponent and fits 64 bits
(minus zero does not count as whole), else binary64. -/
def value? (l : Literal) : Option Json :=
  let n := Numeral.value l.whole
  let whole := l.fraction.isNone && l.exponent.isNone
  if whole && !l.negative && n ≤ significandMax then some (.int n)
  else if whole && l.negative && 0 < n && n ≤ 0x8000000000000000 then some (.int (-n))
  else l.float?.map .float

end Literal

/-! ### Tokens -/

inductive Token where
  | null
  | bool (b : Bool)
  | number (literal : Literal)
  | text (value : Option String)
  | openArr
  | closeArr
  | openObj
  | closeObj
  | colon
  | comma
  | fault
deriving DecidableEq

/-- Where in a number the scanner stands. -/
inductive NumberPlace where
  | sign
  | leadingZero
  | whole
  | point
  | fraction
  | mark
  | exponentSign
  | exponent
deriving DecidableEq

structure NumberScan where
  place : NumberPlace
  negative : Bool
  whole : List Char
  fraction : List Char
  down : Bool
  exponent : List Char

namespace NumberScan

def begin (c : Char) : Option NumberScan :=
  if c = '-' then some ⟨.sign, true, [], [], false, []⟩
  else if c = '0' then some ⟨.leadingZero, false, [c], [], false, []⟩
  else if Numeral.isDigit c then some ⟨.whole, false, [c], [], false, []⟩
  else none

def literal? (n : NumberScan) : Option Literal :=
  match n.place with
  | .leadingZero | .whole => some ⟨n.negative, n.whole.reverse, none, none⟩
  | .fraction => some ⟨n.negative, n.whole.reverse, some n.fraction.reverse, none⟩
  | .exponent =>
    let fraction := if n.fraction.isEmpty then none else some n.fraction.reverse
    some ⟨n.negative, n.whole.reverse, fraction, some (n.down, n.exponent.reverse)⟩
  | _ => none

/-- The outcome of one character after a number: it continues the number, or spoils it, or stands
after its end. -/
inductive Step where
  | more (n : NumberScan)
  | spoilt
  | ended

def step (n : NumberScan) (c : Char) : Step :=
  let digit := Numeral.isDigit c
  match n.place with
  | .sign =>
    if c = '0' then .more { n with place := .leadingZero, whole := [c] }
    else if digit then .more { n with place := .whole, whole := [c] }
    else .spoilt
  | .leadingZero =>
    if c = '.' then .more { n with place := .point }
    else if c = 'e' ∨ c = 'E' then .more { n with place := .mark }
    else if digit then .spoilt
    else .ended
  | .whole =>
    if c = '.' then .more { n with place := .point }
    else if c = 'e' ∨ c = 'E' then .more { n with place := .mark }
    else if digit then .more { n with whole := c :: n.whole }
    else .ended
  | .point => if digit then .more { n with place := .fraction, fraction := [c] } else .spoilt
  | .fraction =>
    if c = 'e' ∨ c = 'E' then .more { n with place := .mark }
    else if digit then .more { n with fraction := c :: n.fraction }
    else .ended
  | .mark =>
    if c = '+' then .more { n with place := .exponentSign }
    else if c = '-' then .more { n with place := .exponentSign, down := true }
    else if digit then .more { n with place := .exponent, exponent := [c] }
    else .spoilt
  | .exponentSign => if digit then .more { n with place := .exponent, exponent := [c] } else .spoilt
  | .exponent => if digit then .more { n with exponent := c :: n.exponent } else .ended

end NumberScan

/-- A string under way. `content` is what was read, in reverse, and `none` once it stands for no
text; `high` is a leading surrogate that waits for its trailing one. -/
structure TextScan where
  content : Option (List Char)
  high : Option Nat

namespace TextScan

def begin : TextScan := ⟨some [], none⟩

def push (t : TextScan) (c : Char) : TextScan :=
  match t.high with
  | some _ => ⟨none, none⟩
  | none => { t with content := t.content.map (c :: ·) }

def spoil : TextScan := ⟨none, none⟩

/-- A code of four hexadecimal digits: a leading and a trailing surrogate together make one
character, and neither stands alone. -/
def pushCode (t : TextScan) (n : Nat) : TextScan :=
  match t.high with
  | some h =>
    if 0xDC00 ≤ n ∧ n ≤ 0xDFFF then
      ⟨t.content.map (Char.ofNat (0x10000 + (h - 0xD800) * 0x400 + (n - 0xDC00)) :: ·), none⟩
    else spoil
  | none =>
    if 0xD800 ≤ n ∧ n ≤ 0xDBFF then { t with high := some n }
    else if 0xDC00 ≤ n ∧ n ≤ 0xDFFF then spoil
    else { t with content := t.content.map (Char.ofNat n :: ·) }

def value? (t : TextScan) : Option String :=
  match t.high with
  | some _ => none
  | none => t.content.map fun cs => String.ofList cs.reverse

end TextScan

inductive Scan where
  | between
  | word (rest : List Char) (token : Token)
  | number (n : NumberScan)
  | text (t : TextScan)
  | escape (t : TextScan)
  /-- Digits of a code still owed, and its value so far. -/
  | code (t : TextScan) (owed : Nat) (value : Nat)
  | stopped

def isSpace (c : Char) : Bool := c == ' ' || c == '\n' || c == '\t' || c == '\r'

def unescape? (c : Char) : Option Char :=
  if c = '"' ∨ c = '\\' ∨ c = '/' then some c
  else if c = 'b' then some '\x08'
  else if c = 'f' then some '\x0c'
  else if c = 'n' then some '\n'
  else if c = 'r' then some '\r'
  else if c = 't' then some '\t'
  else none

def scanStart (c : Char) : List Token × Scan :=
  if isSpace c then ([], .between)
  else if c = '[' then ([.openArr], .between)
  else if c = ']' then ([.closeArr], .between)
  else if c = '\x7b' then ([.openObj], .between)
  else if c = '\x7d' then ([.closeObj], .between)
  else if c = ':' then ([.colon], .between)
  else if c = ',' then ([.comma], .between)
  else if c = '"' then ([], .text .begin)
  else if c = 'n' then ([], .word ['u', 'l', 'l'] .null)
  else if c = 't' then ([], .word ['r', 'u', 'e'] (.bool true))
  else if c = 'f' then ([], .word ['a', 'l', 's', 'e'] (.bool false))
  else match NumberScan.begin c with
    | some n => ([], .number n)
    | none => ([.fault], .stopped)

def scanStep (st : Scan) (u : Option Char) : List Token × Scan :=
  match st, u with
  | .stopped, _ => ([], .stopped)
  | .text _, none => ([], .text .spoil)
  | .number n, none =>
    match n.literal? with
    | some l => ([.number l, .fault], .stopped)
    | none => ([.fault], .stopped)
  | _, none => ([.fault], .stopped)
  | .between, some c => scanStart c
  | .word [] token, some _ => ([token, .fault], .stopped)
  | .word [x] token, some c => if c = x then ([token], .between) else ([.fault], .stopped)
  | .word (x :: rest) token, some c =>
    if c = x then ([], .word rest token) else ([.fault], .stopped)
  | .number n, some c =>
    match n.step c with
    | .more m => ([], .number m)
    | .spoilt => ([.fault], .stopped)
    | .ended =>
      match n.literal? with
      | some l =>
        let (ts, next) := scanStart c
        (.number l :: ts, next)
      | none => ([.fault], .stopped)
  | .text t, some c =>
    if c = '"' then ([.text t.value?], .between)
    else if c = '\\' then ([], .escape t)
    else if c.toNat < 0x20 then ([.fault], .stopped)
    else ([], .text (t.push c))
  | .escape t, some c =>
    if c = 'u' then ([], .code t 4 0)
    else match unescape? c with
      | some e => ([], .text (t.push e))
      | none => ([.fault], .stopped)
  | .code t owed value, some c =>
    match Hex.value? c with
    | none => ([.fault], .stopped)
    | some d =>
      let value := value * 16 + d
      if owed ≤ 1 then ([], .text (t.pushCode value)) else ([], .code t (owed - 1) value)

def scanEnd : Scan → List Token
  | .between => []
  | .stopped => []
  | .number n =>
    match n.literal? with
    | some l => [.number l]
    | none => [.fault]
  | _ => [.fault]

def scanFrom (st : Scan) : List (Option Char) → List Token
  | [] => scanEnd st
  | u :: us =>
    let (ts, next) := scanStep st u
    ts ++ scanFrom next us

def tokens (units : List (Option Char)) : List Token := scanFrom .between units

end AppBackend.Json
