import AppBackend.Text.Hex

/-!
# TOML strings and keys

Readers for blanks, comments, the four kinds of strings, and keys. Each takes what it reads from the
front of the text and leaves the rest. Readers that repeat are given the length of the text, which
bounds their steps.
-/

namespace AppBackend.Toml

/-! ### Between the parts -/

def isBlank (c : Char) : Bool := c == ' ' || c == '\t'

/-- Characters that may stand nowhere but in a line end. -/
def isControl (c : Char) : Bool := (c.toNat < 0x20 && c != '\t') || c.toNat == 0x7F

def skipBlanks (cs : List Char) : List Char := cs.dropWhile isBlank

def newline? : List Char → Option (List Char)
  | '\n' :: cs => some cs
  | '\r' :: '\n' :: cs => some cs
  | _ => none

/-- The text after a comment, from its line feed on. -/
def comment? : List Char → Option (List Char)
  | '#' :: cs =>
    let body := cs.takeWhile (· != '\n')
    let rest := cs.drop body.length
    let body := if rest ≠ [] ∧ body.getLast? = some '\r' then body.dropLast else body
    if body.any isControl then none else some rest
  | cs => some cs

/-- The text after the end of a line: blanks, perhaps a comment, and a line end or the end of all
of it. -/
def lineEnd? (cs : List Char) : Option (List Char) :=
  match comment? (skipBlanks cs) with
  | none => none
  | some [] => some []
  | some cs => newline? cs

/-- The text after blanks, comments and line ends. -/
def skipLines? : Nat → List Char → Option (List Char)
  | 0, cs => some cs
  | fuel + 1, cs =>
    match comment? (skipBlanks cs) with
    | none => none
    | some cs =>
      match newline? cs with
      | some cs => skipLines? fuel cs
      | none => some cs

/-! ### Strings -/

def code? (n : Nat) (cs : List Char) : Option (Char × List Char) :=
  match (cs.take n).mapM Hex.value? with
  | none => none
  | some ds =>
    let v := ds.foldl (fun a d => a * 16 + d) 0
    if ds.length = n ∧ (v < 0xD800 ∨ (0xDFFF < v ∧ v < 0x110000)) then
      some (Char.ofNat v, cs.drop n)
    else none

def escape? : List Char → Option (Char × List Char)
  | 'b' :: cs => some ('\x08', cs)
  | 't' :: cs => some ('\t', cs)
  | 'n' :: cs => some ('\n', cs)
  | 'f' :: cs => some ('\x0c', cs)
  | 'r' :: cs => some ('\r', cs)
  | 'e' :: cs => some ('\x1b', cs)
  | '"' :: cs => some ('"', cs)
  | '\\' :: cs => some ('\\', cs)
  | 'x' :: cs => code? 2 cs
  | 'u' :: cs => code? 4 cs
  | 'U' :: cs => code? 8 cs
  | _ => none

/-- The rest of a string on one line; escapes count in double quotes only. -/
def line? (quote : Char) : Nat → List Char → List Char → Option (List Char × List Char)
  | 0, _, _ => none
  | _ + 1, _, [] => none
  | fuel + 1, acc, c :: cs =>
    if c = quote then some (acc.reverse, cs)
    else if c = '\\' ∧ quote = '"' then
      match escape? cs with
      | some (e, cs) => line? quote fuel (e :: acc) cs
      | none => none
    else if isControl c then none
    else line? quote fuel (c :: acc) cs

/-- The rest of a string over several lines. Of the quotes at its end the last three close it. A
backslash at the end of a line joins it to the next text. -/
def lines? (quote : Char) : Nat → List Char → List Char → Option (List Char × List Char)
  | 0, _, _ => none
  | _ + 1, _, [] => none
  | fuel + 1, acc, c :: cs =>
    if c = quote then
      let run := (c :: cs).takeWhile (· == quote)
      let rest := (c :: cs).drop run.length
      if 5 < run.length then none
      else if 3 ≤ run.length then some (acc.reverse ++ run.drop 3, rest)
      else lines? quote fuel (run ++ acc) rest
    else if c = '\\' ∧ quote = '"' then
      match newline? (skipBlanks cs) with
      | some cs => lines? quote fuel acc (cs.dropWhile fun d => isBlank d || d == '\n' || d == '\r')
      | none =>
        match escape? cs with
        | some (e, cs) => lines? quote fuel (e :: acc) cs
        | none => none
    else match newline? (c :: cs) with
      | some rest =>
        let lineEnd := (c :: cs).take (cs.length + 1 - rest.length)
        lines? quote fuel (lineEnd.reverse ++ acc) rest
      | none => if isControl c then none else lines? quote fuel (c :: acc) cs

def string? (cs : List Char) : Option (List Char × List Char) :=
  let fuel := cs.length + 1
  match cs with
  | '"' :: '"' :: '"' :: cs => lines? '"' fuel [] ((newline? cs).getD cs)
  | '\'' :: '\'' :: '\'' :: cs => lines? '\'' fuel [] ((newline? cs).getD cs)
  | '"' :: cs => line? '"' fuel [] cs
  | '\'' :: cs => line? '\'' fuel [] cs
  | _ => none

/-! ### Keys -/

def isBare (c : Char) : Bool :=
  ('a' ≤ c && c ≤ 'z') || ('A' ≤ c && c ≤ 'Z') || ('0' ≤ c && c ≤ '9') || c == '-' || c == '_'

def simpleKey? (cs : List Char) : Option (String × List Char) :=
  let fuel := cs.length + 1
  match cs with
  | '"' :: cs => (line? '"' fuel [] cs).map fun (k, rest) => (String.ofList k, rest)
  | '\'' :: cs => (line? '\'' fuel [] cs).map fun (k, rest) => (String.ofList k, rest)
  | cs =>
    let k := cs.takeWhile isBare
    if k = [] then none else some (String.ofList k, cs.drop k.length)

/-- The parts of a key with dots between them, in reverse, and the text after blanks. -/
def keyParts? : Nat → List String → List Char → Option (List String × List Char)
  | 0, _, _ => none
  | fuel + 1, acc, cs =>
    match simpleKey? (skipBlanks cs) with
    | none => none
    | some (k, rest) =>
      match skipBlanks rest with
      | '.' :: rest => keyParts? fuel (k :: acc) rest
      | rest => some (k :: acc, rest)

/-- A key: the path before its last part, and that part. -/
def key? (cs : List Char) : Option ((List String × String) × List Char) :=
  match keyParts? (cs.length + 1) [] cs with
  | some (last :: before, rest) => some ((before.reverse, last), rest)
  | _ => none

end AppBackend.Toml
