import AppBackend.Text.Utf8

/-!
# Base64

Octets as characters of six bits each. Blanks between them are passed over, and padding at the end
may be left out.
-/

namespace AppBackend.Base64

/-- The six bits of a character. -/
def value? (b : UInt8) : Option Nat :=
  let n := b.toNat
  if 0x41 ≤ n ∧ n ≤ 0x5A then some (n - 0x41)
  else if 0x61 ≤ n ∧ n ≤ 0x7A then some (n - 0x61 + 26)
  else if 0x30 ≤ n ∧ n ≤ 0x39 then some (n - 0x30 + 52)
  else if n = 0x2B then some 62
  else if n = 0x2F then some 63
  else none

def isBlank (b : UInt8) : Bool := b == 0x20 || (0x9 ≤ b && b ≤ 0xD)

def pad : UInt8 := 0x3D

/-- The octets of a list of six-bit values; bits that fill no octet are dropped. -/
def octets : List Nat → Bytes
  | a :: b :: c :: d :: rest =>
    .ofNat (a * 4 + b / 16) :: .ofNat (b % 16 * 16 + c / 4) :: .ofNat (c % 4 * 64 + d)
      :: octets rest
  | [a, b, c] => [.ofNat (a * 4 + b / 16), .ofNat (b % 16 * 16 + c / 4)]
  | [a, b] => [.ofNat (a * 4 + b / 16)]
  | _ => []

/-- Whether so many characters and so many pads make a whole. -/
def isWhole (count pads : Nat) : Bool :=
  match pads with
  | 0 => count % 4 != 1
  | 1 => count % 4 == 3
  | 2 => count % 4 == 2
  | _ => false

def decode? (text : Bytes) : Option Bytes :=
  let symbols := text.filter fun b => !isBlank b
  let data := symbols.takeWhile (· != pad)
  let pads := symbols.drop data.length
  if pads.all (· == pad) && isWhole data.length pads.length then
    (data.mapM value?).map octets
  else none

end AppBackend.Base64
