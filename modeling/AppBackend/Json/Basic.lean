import AppBackend.Decimal.Double
import AppBackend.Keyed

/-!
# JSON values

Values as the service exchanges them. Whole numbers and binary64 numbers are different values, and
the members of an object stand in ascending order of their keys, each key once.
-/

namespace AppBackend

inductive Json where
  | null
  | bool (b : Bool)
  | int (n : Int)
  | float (x : Double)
  | str (s : String)
  | arr (items : List Json)
  | obj (members : List (String × Json))
deriving Inhabited

namespace Json

abbrev Fields := Keyed Json

/-! ### Equality -/

mutual

/-- Equality of values: numbers of one kind by value, arrays item by item, objects member by
member. -/
def same : Json → Json → Bool
  | .null, .null => true
  | .bool a, .bool b => a == b
  | .int a, .int b => a == b
  | .float a, .float b => a.sameValue b
  | .str a, .str b => a == b
  | .arr a, .arr b => sameItems a b
  | .obj a, .obj b => sameMembers a b
  | _, _ => false

def sameItems : List Json → List Json → Bool
  | [], [] => true
  | a :: as, b :: bs => same a b && sameItems as bs
  | _, _ => false

def sameMembers : List (String × Json) → List (String × Json) → Bool
  | [], [] => true
  | (k, a) :: as, (l, b) :: bs => k == l && same a b && sameMembers as bs
  | _, _ => false

end

/-! ### Parts of a value -/

def str? : Json → Option String
  | .str s => some s
  | _ => none

def int? : Json → Option Int
  | .int n => some n
  | _ => none

def bool? : Json → Option Bool
  | .bool b => some b
  | _ => none

def arr? : Json → Option (List Json)
  | .arr items => some items
  | _ => none

def obj? : Json → Option Fields
  | .obj fs => some fs
  | _ => none

/-- A text member; anything else reads as empty. -/
def Fields.text (fs : Fields) (key : String) : String := ((fs.get? key).bind str?).getD ""

/-- A truth member; anything else reads as false. -/
def Fields.flag (fs : Fields) (key : String) : Bool := ((fs.get? key).bind bool?).getD false

end Json
end AppBackend
