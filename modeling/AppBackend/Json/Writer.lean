import AppBackend.Decimal.Shortest
import AppBackend.Json.Basic
import AppBackend.Text.Hex
import AppBackend.Text.Numeral
import AppBackend.Text.Utf8

/-!
# JSON text

The compact text of a value: no blanks, members in the order they stand. A string is written with
escapes for the quote, the backslash and control characters only. A binary64 number is written with
its shortest digits, positionally for exponents of ten from -5 to 15 and else with an exponent.
-/

namespace AppBackend.Json

/-! ### Strings -/

def escapeChar (c : Char) : List Char :=
  if c = '"' then ['\\', '"']
  else if c = '\\' then ['\\', '\\']
  else if c = '\x08' then ['\\', 'b']
  else if c = '\x0c' then ['\\', 'f']
  else if c = '\n' then ['\\', 'n']
  else if c = '\r' then ['\\', 'r']
  else if c = '\t' then ['\\', 't']
  else if c.toNat < 0x20 then
    ['\\', 'u', '0', '0', Hex.digit (c.toNat / 16), Hex.digit (c.toNat % 16)]
  else [c]

def quoted (cs : List Char) : List Char := '"' :: (cs.flatMap escapeChar ++ ['"'])

/-! ### Numbers -/

def writeInt (n : Int) : List Char :=
  if n < 0 then '-' :: Numeral.write n.natAbs else Numeral.write n.natAbs

/-- Digits with a decimal point after the first `point` of them; `0.` and zeros stand in front where
the point comes before all digits, and `.0` ends a whole number. -/
def positional (digits : List Char) (point : Int) : List Char :=
  if point ≤ 0 then ['0', '.'] ++ List.replicate (-point).toNat '0' ++ digits
  else
    let p := point.toNat
    if digits.length ≤ p then digits ++ List.replicate (p - digits.length) '0' ++ ['.', '0']
    else digits.take p ++ '.' :: digits.drop p

/-- One digit before the point and a signed exponent; a lone digit has no point. -/
def withExponent (digits : List Char) (exponent : Int) : List Char :=
  let mantissa := match digits with
    | [] => ['0']
    | [d] => [d]
    | d :: ds => d :: '.' :: ds
  mantissa ++ 'e' :: (if exponent < 0 then '-' else '+') :: Numeral.write exponent.natAbs

def writeFloat (x : Double) : List Char :=
  let magnitude :=
    if x.isZero then ['0', '.', '0']
    else
      let s := Decimal.Shortest.ofDouble x
      if -5 ≤ s.exponent ∧ s.exponent ≤ 15 then positional s.digits (s.exponent + 1)
      else withExponent s.digits s.exponent
  if x.negative then '-' :: magnitude else magnitude

/-! ### Values -/

mutual

def write : Json → List Char
  | .null => ['n', 'u', 'l', 'l']
  | .bool true => ['t', 'r', 'u', 'e']
  | .bool false => ['f', 'a', 'l', 's', 'e']
  | .int n => writeInt n
  | .float x => writeFloat x
  | .str s => quoted s.toList
  | .arr items => '[' :: (writeItems items ++ [']'])
  | .obj members => '\x7b' :: (writeMembers members ++ ['\x7d'])

def writeItems : List Json → List Char
  | [] => []
  | [v] => write v
  | v :: w :: rest => write v ++ ',' :: writeItems (w :: rest)

def writeMembers : List (String × Json) → List Char
  | [] => []
  | [(k, v)] => quoted k.toList ++ ':' :: write v
  | (k, v) :: m :: rest => quoted k.toList ++ ':' :: (write v ++ ',' :: writeMembers (m :: rest))

end

def text (v : Json) : String := String.ofList (write v)

def bytes (v : Json) : Bytes := Utf8.encode (write v)

end AppBackend.Json

