/-!
# Hexadecimal digits

One digit at a time. Main statement: `value?_digit`, a digit written reads back.
-/

namespace AppBackend.Hex

def digits : List Char :=
  ['0', '1', '2', '3', '4', '5', '6', '7', '8', '9', 'a', 'b', 'c', 'd', 'e', 'f']

/-- The lower-case digit of a value below sixteen. -/
def digit (n : Nat) : Char := digits.getD n '0'

/-- The upper-case digit of a value below sixteen. -/
def upperDigit (n : Nat) : Char := (digit n).toUpper

def value? (c : Char) : Option Nat :=
  if '0' ≤ c ∧ c ≤ '9' then some (c.toNat - '0'.toNat)
  else if 'a' ≤ c ∧ c ≤ 'f' then some (c.toNat - 'a'.toNat + 10)
  else if 'A' ≤ c ∧ c ≤ 'F' then some (c.toNat - 'A'.toNat + 10)
  else none

theorem value?_digit : ∀ n, n < 16 → value? (digit n) = some n := by decide

theorem value?_upperDigit : ∀ n, n < 16 → value? (upperDigit n) = some n := by decide

def octet (b : UInt8) : List Char := [digit (b.toNat / 16), digit (b.toNat % 16)]

def octets? : List Char → Option (List UInt8)
  | [] => some []
  | [_] => none
  | a :: b :: cs => do
    let hi ← value? a
    let lo ← value? b
    let rest ← octets? cs
    return UInt8.ofNat (hi * 16 + lo) :: rest

end AppBackend.Hex
