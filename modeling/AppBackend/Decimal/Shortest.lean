import AppBackend.Decimal.Double

/-!
# Shortest decimals

The fewest decimal digits that read back as a given binary64 number. Every real between the two
half-way points to the neighbours rounds to the number, the half-way points themselves when its
significand is even. Grids of one, two, … seventeen digits are tried in turn; on a grid only the two
points around the number can be nearest, and of two hits the nearer wins, an exact tie going to the
even one.
-/

namespace AppBackend.Decimal

/-- A positive decimal `d₁.d₂d₃… · 10 ^ exponent`; the last digit is not zero. -/
structure Shortest where
  digits : List Char
  exponent : Int
deriving DecidableEq

namespace Shortest

/-- A magnitude and the ends of its rounding interval, over one denominator. -/
structure Interval where
  value : Nat
  low : Nat
  high : Nat
  den : Nat
  closed : Bool

/-- In quarters of the last binary place: the number below a power of two is half as far away. -/
def interval (x : Double) : Interval :=
  let (m, q) := x.parts
  let below := if x.code % Nat.pow 2 52 = 0 ∧ Nat.pow 2 52 < x.code then 1 else 2
  let (n, d) := Double.shifted 1 1 (q - 2)
  ⟨4 * m * n, (4 * m - below) * n, (4 * m + 2) * n, d, m % 2 = 0⟩

def digitCount (n : Nat) : Nat := (Nat.toDigits 10 n).length

/-- The exponent of ten of the leading digit of `n / d`, which is positive and no negative power of
ten. -/
def leadingExponent (n d : Nat) : Int :=
  if d ≤ n then (digitCount (n / d) : Int) - 1 else -(digitCount (d / n) : Int)

def Interval.contains (i : Interval) (c : Nat) (k : Int) : Bool :=
  let p := if 0 ≤ k then c * Nat.pow 10 k.toNat * i.den else c * i.den
  let s := if 0 ≤ k then 1 else Nat.pow 10 (-k).toNat
  if i.closed then i.low * s ≤ p && p ≤ i.high * s else i.low * s < p && p < i.high * s

/-- The best point of the grid of multiples of `10 ^ k`, if one lies in the interval. -/
def onGrid? (i : Interval) (k : Int) : Option Nat :=
  let (n, d) :=
    if 0 ≤ k then (i.value, i.den * Nat.pow 10 k.toNat)
    else (i.value * Nat.pow 10 (-k).toNat, i.den)
  let c := n / d
  let r := n % d
  let up := 2 * r > d || (2 * r == d && c % 2 == 1)
  let (first, second) := if up then (c + 1, c) else (c, c + 1)
  if i.contains first k then some first
  else if i.contains second k then some second
  else none

def stripZeros (cs : List Char) : List Char := (cs.reverse.dropWhile (· == '0')).reverse

def ofDouble (x : Double) : Shortest :=
  let i := interval x
  let p := leadingExponent i.value i.den
  let hit := (List.range 17).findSome? fun (d : Nat) =>
    let k := p - (d : Int)
    (onGrid? i k).map fun c => (c, k)
  match hit with
  | some (c, k) =>
    let cs := Nat.toDigits 10 c
    ⟨stripZeros cs, k + (cs.length : Int) - 1⟩
  | none => ⟨['0'], 0⟩

end Shortest
end AppBackend.Decimal
