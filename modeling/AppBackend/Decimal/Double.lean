/-!
# Binary64 numbers

The finite numbers of 53 significant bits, as a sign and a code that counts them upwards from zero.
All arithmetic is exact on naturals followed by one rounding to the nearest number, an exact half
going to the even neighbour; a result too large for the format is `none`.
-/

namespace AppBackend

/-- The first code beyond the finite numbers. -/
def Double.codeLimit : Nat := 2047 * Nat.pow 2 52

/-- A finite number: a sign, and the place of its magnitude among all magnitudes. -/
structure Double where
  negative : Bool
  code : Nat
  code_lt : code < Double.codeLimit
deriving DecidableEq

namespace Double

def zero : Double := ⟨false, 0, by decide⟩

def isZero (x : Double) : Bool := x.code == 0

def neg (x : Double) : Double := { x with negative := !x.negative }

def sameValue (x y : Double) : Bool := x == y || (x.isZero && y.isZero)

/-! ### Magnitudes as `m · 2 ^ q` -/

def parts (x : Double) : Nat × Int :=
  let e : Nat := x.code / Nat.pow 2 52
  let f := x.code % Nat.pow 2 52
  if e = 0 then (f, -1074) else (Nat.pow 2 52 + f, (e : Int) - 1075)

/-- The quotient of two naturals, rounded to the nearest natural, an exact half to the even one. -/
def roundQuotient (a b : Nat) : Nat :=
  let m := a / b
  let r := a % b
  if 2 * r > b || (2 * r == b && m % 2 == 1) then m + 1 else m

/-- `a · 2 ^ k / b` as a pair of naturals. -/
def shifted (a b : Nat) (k : Int) : Nat × Nat :=
  if 0 ≤ k then (a * Nat.pow 2 k.toNat, b) else (a, b * Nat.pow 2 (-k).toNat)

/-- The exponent of two at which the quotient has 53 bits, or the least exponent of the format. -/
def exponentOf (a b : Nat) : Int :=
  let q : Int := (a.log2 : Int) - (b.log2 : Int) - 52
  let (n, d) := shifted a b (-q)
  let q := if n / d < Nat.pow 2 52 then q - 1 else q
  max q (-1074)

def ofRatio? (negative : Bool) (a b : Nat) : Option Double :=
  if a = 0 then some ⟨negative, 0, by decide⟩
  else
    let q := exponentOf a b
    let (n, d) := shifted a b (-q)
    let code := (q + 1074).toNat * Nat.pow 2 52 + roundQuotient n d
    if h : code < codeLimit then some ⟨negative, code, h⟩ else none

def ofNat? (n : Nat) : Option Double := ofRatio? false n 1

def mul? (x y : Double) : Option Double :=
  let (m, p) := x.parts
  let (n, q) := y.parts
  let (a, b) := shifted (m * n) 1 (p + q)
  ofRatio? (x.negative != y.negative) a b

/-- A quotient; the divisor is not zero. -/
def div? (x y : Double) : Option Double :=
  let (m, p) := x.parts
  let (n, q) := y.parts
  let (a, b) := shifted m n (p - q)
  ofRatio? (x.negative != y.negative) a b

def powTen? (k : Nat) : Option Double := ofNat? (Nat.pow 10 k)

/-! ### Decimal scaling -/

/-- `k` divisions by the number nearest to the 308th power of ten; zero stays zero. -/
def lower? (x : Double) : Nat → Option Double
  | 0 => some x
  | k + 1 => if x.isZero then some x else ((powTen? 308).bind x.div?).bind fun y => lower? y k

/-- A number times a power of ten, in steps that stay inside the format: each step multiplies or
divides by the number nearest to a power of ten, up to the 308th, and rounds. -/
def scale? (x : Double) (e : Int) : Option Double :=
  if x.isZero then some x
  else if 308 < e then none
  else if 0 ≤ e then (powTen? e.toNat).bind x.mul?
  else
    let k := (-e).toNat
    let steps := (k - 1) / 308
    (x.lower? steps).bind fun y => (powTen? (k - 308 * steps)).bind y.div?

/-- A natural times a power of ten: the natural is rounded first, then scaled. -/
def ofDecimal? (m : Nat) (e : Int) : Option Double := (ofNat? m).bind fun x => x.scale? e

end Double
end AppBackend
