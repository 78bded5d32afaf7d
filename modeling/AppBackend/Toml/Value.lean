/-!
# TOML values

A document as a tree, and the rules by which lines add to it. A table remembers how it came to be,
because that decides what may be added later: a table with a header of its own is closed to dotted
keys, an inline table to everything, and a table that was only on the way to others may still get a
header.
-/

namespace AppBackend.Toml

/-- How a table came to be. -/
inductive Origin where
  /-- The document itself, or a header. -/
  | header
  /-- On the way to the table of a header. -/
  | implied
  /-- On the way of a dotted key. -/
  | dotted
  | inline
deriving DecidableEq

/-- Numbers with a fraction and moments are told apart, but their content is of no use here. -/
inductive Value where
  | text (s : String)
  | int (n : Int)
  | float
  | bool (b : Bool)
  | moment
  | array (items : List Value)
  | table (origin : Origin) (entries : List (String × Value))
  /-- Tables that share a header in double brackets. -/
  | tables (items : List (List (String × Value)))
deriving Inhabited

abbrev Entries := List (String × Value)

def Entries.get? (es : Entries) (key : String) : Option Value :=
  (es.find? fun e => e.1 == key).map (·.2)

def Entries.set (es : Entries) (key : String) (v : Value) : Entries :=
  (key, v) :: es.filter fun e => e.1 != key

structure Table where
  origin : Origin
  entries : Entries

namespace Table

def empty : Table := ⟨.header, []⟩

def set (t : Table) (key : String) (v : Value) : Table := { t with entries := t.entries.set key v }

/-- Changes the table at the end of a path; tables missing on the way are made. A header's path goes
through the last of tables that share a header, a dotted key's does not. -/
def descend (dotted : Bool) (change : Table → Option Table) : List String → Table → Option Table
  | [], t => change t
  | key :: path, t =>
    match t.entries.get? key with
    | none =>
      let made : Table := ⟨if dotted then .dotted else .implied, []⟩
      (descend dotted change path made).map fun s => t.set key (.table s.origin s.entries)
    | some (.table origin entries) =>
      if origin = .inline ∨ (dotted ∧ origin = .header) then none
      else (descend dotted change path ⟨origin, entries⟩).map fun s =>
        t.set key (.table s.origin s.entries)
    | some (.tables items) =>
      match dotted, items.reverse with
      | false, last :: before =>
        (descend dotted change path ⟨.header, last⟩).map fun s =>
          t.set key (.tables (s.entries :: before).reverse)
      | _, _ => none
    | some _ => none

def add (dotted : Bool) (key : String) (v : Value) (t : Table) : Option Table :=
  if dotted != (t.origin == .dotted) || (t.entries.get? key).isSome then none
  else some (t.set key v)

def addAt (path : List String) (key : String) (v : Value) (t : Table) : Option Table :=
  descend true (add (!path.isEmpty) key v) path t

/-- Opens the table of a header: a new one, or one that was only implied. -/
def openTable (key : String) (t : Table) : Option Table :=
  match t.entries.get? key with
  | none => some (t.set key (.table .header []))
  | some (.table .implied entries) => some (t.set key (.table .header entries))
  | some _ => none

/-- Opens one more table under a header in double brackets. -/
def openNext (key : String) (t : Table) : Option Table :=
  match t.entries.get? key with
  | none => some (t.set key (.tables [[]]))
  | some (.tables items) => some (t.set key (.tables (items ++ [[]])))
  | some _ => none

end Table
end AppBackend.Toml
