import AppBackend.Http.Names
import AppBackend.Text.Cut

/-!
# Media types

The value of a content type: a type and a subtype with a slash between them, then parameters.
-/

namespace AppBackend.Media

def isTokenChar (c : Char) : Bool :=
  c.isAlphanum || "!#$%&'+-.^_`|~".toList.contains c

/-! ### Parameters -/

/-- What comes next while parameters are read. -/
inductive Expect where
  /-- A name, after any spaces. -/
  | name
  | nameOrEquals
  | value
  | valueOrEnd
  /-- The first character in quotes. -/
  | quoted
  | quotedOrQuote
  | spaceOrEnd
deriving DecidableEq

def isQuotable (c : Char) : Bool := 31 < c.toNat && c.toNat != 127

def Expect.step : Expect → Char → Option Expect
  | .name, c => if c = ' ' then some .name else if isTokenChar c then some .nameOrEquals else none
  | .nameOrEquals, c =>
    if c = '=' then some .value else if isTokenChar c then some .nameOrEquals else none
  | .value, c => if c = '"' then some .quoted else if isTokenChar c then some .valueOrEnd else none
  | .valueOrEnd, c =>
    if c = ';' then some .name else if isTokenChar c then some .valueOrEnd else none
  | .quoted, c => if isQuotable c then some .quotedOrQuote else none
  | .quotedOrQuote, c =>
    if c = '"' then some .spaceOrEnd else if isQuotable c then some .quotedOrQuote else none
  | .spaceOrEnd, c => if c = ';' then some .name else if c = ' ' then some .spaceOrEnd else none

def Expect.mayEnd : Expect → Bool
  | .name | .value | .valueOrEnd | .spaceOrEnd => true
  | .nameOrEquals | .quoted | .quotedOrQuote => false

def isParameters (cs : List Char) : Bool :=
  ((cs.foldlM Expect.step .name).map Expect.mayEnd).getD false

/-! ### Types -/

/-- The text before the last of a character, and the text after it. A first character does not
count. -/
def cutLast? (sep : Char) (cs : List Char) : Option (List Char × List Char) :=
  match Text.cut? sep cs.reverse with
  | some (after, before) => if before.isEmpty then none else some (before.reverse, after.reverse)
  | none => none

/-- Type, subtype and suffix, where the subtype has one after a plus sign. -/
def parts? (cs : List Char) : Option (List Char × List Char × Option (List Char)) :=
  match Text.cut? '/' cs with
  | none => none
  | some (kind, rest) =>
    let (sub, params) := (Text.cut? ';' rest).getD (rest, [])
    if !kind.isEmpty && kind.all isTokenChar && !sub.isEmpty && sub.all isTokenChar
        && isParameters params then
      match cutLast? '+' sub with
      | some (sub, suffix) => some (kind, sub, some suffix)
      | none => some (kind, sub, none)
    else none

def lower (cs : List Char) : String := String.ofList (cs.map Char.toLower)

/-- Whether a content type says that the body is JSON, in letters of any case. -/
def isJson (s : String) : Bool :=
  match parts? s.toList with
  | some (kind, sub, suffix) =>
    lower kind == "application" && (lower sub == "json" || (suffix.map lower) == some "json")
  | none => false

end AppBackend.Media
