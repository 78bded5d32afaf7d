import AppBackend.Toml.Quoted
import AppBackend.Toml.Scalar

/-!
# TOML documents

A text as a table: lines with headers, and lines that put a value under a key of the table opened
last. Values may nest eighty deep.
-/

namespace AppBackend.Toml

/-- The arrays and inline tables that may stand in each other. -/
def nestingLimit : Nat := 80

/-! ### Values -/

mutual

/-- A value at the front of a text; `fuel` bounds the steps and `room` the nesting. -/
def value? : Nat → Nat → List Char → Option (Value × List Char)
  | 0, _, _ => none
  | fuel + 1, room, cs =>
    match cs, room with
    | '[' :: _, 0 => none
    | '\x7b' :: _, 0 => none
    | '[' :: cs, room + 1 => items? fuel room [] cs
    | '\x7b' :: cs, room + 1 => pairs? fuel room ⟨.inline, []⟩ cs
    | '"' :: _, _ => (string? cs).map fun (s, rest) => (.text (String.ofList s), rest)
    | '\'' :: _, _ => (string? cs).map fun (s, rest) => (.text (String.ofList s), rest)
    | _, _ => scalar? cs

/-- Items of an array up to its closing bracket; a comma may follow the last. -/
def items? : Nat → Nat → List Value → List Char → Option (Value × List Char)
  | 0, _, _, _ => none
  | fuel + 1, room, acc, cs =>
    match skipLines? cs.length cs with
    | none => none
    | some (']' :: rest) => some (.array acc.reverse, rest)
    | some cs =>
      match value? fuel room cs with
      | none => none
      | some (v, rest) =>
        match skipLines? rest.length rest with
        | some (',' :: rest) => items? fuel room (v :: acc) rest
        | some (']' :: rest) => some (.array (v :: acc).reverse, rest)
        | _ => none

/-- Pairs of an inline table up to its closing brace; a comma may follow the last. -/
def pairs? : Nat → Nat → Table → List Char → Option (Value × List Char)
  | 0, _, _, _ => none
  | fuel + 1, room, t, cs =>
    match skipLines? cs.length cs with
    | none => none
    | some ('\x7d' :: rest) => some (.table .inline t.entries, rest)
    | some cs =>
      match key? cs with
      | some ((path, key), '=' :: rest) =>
        match value? fuel room (skipBlanks rest) with
        | none => none
        | some (v, rest) =>
          match t.addAt path key v, skipLines? rest.length rest with
          | some t, some (',' :: rest) => pairs? fuel room t rest
          | some t, some ('\x7d' :: rest) => some (.table .inline t.entries, rest)
          | _, _ => none
      | _ => none

end

/-! ### Lines -/

structure Building where
  root : Table
  current : List String

def header? (b : Building) (cs : List Char) : Option (Building × List Char) :=
  match key? cs with
  | some ((path, key), ']' :: rest) =>
    (b.root.descend false (Table.openTable key) path).map fun root => (⟨root, path ++ [key]⟩, rest)
  | _ => none

def nextHeader? (b : Building) (cs : List Char) : Option (Building × List Char) :=
  match key? cs with
  | some ((path, key), ']' :: ']' :: rest) =>
    (b.root.descend false (Table.openNext key) path).map fun root => (⟨root, path ++ [key]⟩, rest)
  | _ => none

def assignment? (b : Building) (cs : List Char) : Option (Building × List Char) :=
  match key? cs with
  | some ((path, key), '=' :: rest) =>
    match value? (2 * rest.length + 2) nestingLimit (skipBlanks rest) with
    | some (v, rest) =>
      (b.root.descend false (Table.addAt path key v) b.current).map fun root =>
        ({ b with root }, rest)
    | none => none
  | _ => none

def expression? (b : Building) (cs : List Char) : Option (Building × List Char) :=
  match cs with
  | [] => some (b, cs)
  | '#' :: _ => some (b, cs)
  | '\n' :: _ => some (b, cs)
  | '\r' :: _ => some (b, cs)
  | '[' :: '[' :: cs => nextHeader? b cs
  | '[' :: cs => header? b cs
  | cs => assignment? b cs

def readLines? : Nat → Building → List Char → Option Table
  | _, b, [] => some b.root
  | 0, _, _ => none
  | fuel + 1, b, cs =>
    match expression? b (skipBlanks cs) with
    | none => none
    | some (b, rest) =>
      match lineEnd? rest with
      | some rest => readLines? fuel b rest
      | none => none

/-- The table that a text describes. A byte order mark in front is passed over. -/
def document? (text : String) : Option Table :=
  let cs := match text.toList with
    | '\ufeff' :: cs => cs
    | cs => cs
  readLines? (cs.length + 1) ⟨.empty, []⟩ cs

end AppBackend.Toml
