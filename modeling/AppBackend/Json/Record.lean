import AppBackend.Json.Reader

/-!
# Records

Objects whose members have known names and shapes. A record is read from text, member by member in
the order they come, or from an object that is already a value; both give the known members only. In
text a record may also stand as an array of its members in declared order. A known member that comes
twice, has the wrong shape or is missing although it is required is a mismatch; of two faults the
one met first counts.
-/

namespace AppBackend.Json

inductive Shape where
  | text
  | textOrNull
  | int64
  | nat64
  | flag
  | object
  | texts
  | any
deriving DecidableEq

namespace Shape

def conforms : Shape → Json → Bool
  | .text, .str _ => true
  | .textOrNull, .str _ => true
  | .textOrNull, .null => true
  | .int64, .int n => -0x8000000000000000 ≤ n && n < 0x8000000000000000
  | .nat64, .int n => 0 ≤ n && n < 0x10000000000000000
  | .flag, .bool _ => true
  | .object, .obj _ => true
  | .texts, .arr items => items.all fun v => v.str?.isSome
  | .any, _ => true
  | _, _ => false

def admits : Shape → Token → Bool
  | .text, .text _ => true
  | .textOrNull, .text _ => true
  | .textOrNull, .null => true
  | .int64, .number _ => true
  | .nat64, .number _ => true
  | .flag, .bool _ => true
  | .object, .openObj => true
  | .texts, .openArr => true
  | .any, _ => true
  | _, _ => false

end Shape

def faultAt (ts : List Token) : Fault :=
  match ts with
  | .openArr :: _ => .mismatch
  | .openObj :: _ => .mismatch
  | ts => match readValue .standard ts with
    | .ok _ => .mismatch
    | .error e => e

/-- The first value, if it has the shape asked for. A wrong beginning is found before what follows
is read. -/
def Shape.read (shape : Shape) (care : Care) (ts : List Token) :
    Except Fault (Json × List Token) :=
  if (ts.head?.map shape.admits).getD false then
    match readValue care ts with
    | .ok (v, rest) => if shape.conforms v then .ok (v, rest) else .error .mismatch
    | .error e => .error e
  else .error (faultAt ts)

theorem Shape.read_length {shape : Shape} {care : Care} {ts rest : List Token} {v : Json}
    (h : shape.read care ts = .ok (v, rest)) : rest.length < ts.length := by
  unfold Shape.read at h
  split at h
  · split at h
    · rename_i h'
      split at h
      · simp only [Except.ok.injEq, Prod.mk.injEq] at h
        exact h.2 ▸ readValue_length h'
      · simp at h
    · simp at h
  · simp at h

/-! ### Schemas -/

structure Member where
  name : String
  shape : Shape

/-- Whether and how a record may stand as an array. -/
inductive Positional where
  | refused
  /-- Members may be left out at the end. -/
  | upTo
  | complete

structure Schema where
  members : List Member
  required : List String
  positional : Positional
  /-- How unknown members are looked at. -/
  unknown : Care → Care

namespace Schema

def member? (s : Schema) (name : String) : Option Member := s.members.find? fun m => m.name == name

/-- The known members once all have been read. -/
def finish (s : Schema) (seen : Fields) (ts : List Token) : Except Fault (Fields × List Token) :=
  if s.required.all fun n => (seen.get? n).isSome then .ok (seen, ts) else .error .mismatch

def readMember (s : Schema) (care : Care) (name : String) (ts : List Token) :
    Except Fault (Json × List Token) :=
  match s.member? name with
  | some m => m.shape.read care ts
  | none => Shape.any.read (s.unknown care) ts

theorem readMember_length {s : Schema} {care : Care} {name : String} {ts rest : List Token}
    {v : Json} (h : s.readMember care name ts = .ok (v, rest)) : rest.length < ts.length := by
  unfold readMember at h
  split at h <;> exact Shape.read_length h

def keep (s : Schema) (seen : Fields) (name : String) (v : Json) : Fields :=
  if (s.member? name).isSome then seen.insert name v else seen

/-- Members of an object after its opening brace or a comma. -/
def readMembers (s : Schema) (care : Care) (seen : Fields) (ts : List Token) :
    Except Fault (Fields × List Token) :=
  match ts with
  | .text (some name) :: ts =>
    if (seen.get? name).isSome then .error .mismatch
    else match ts with
      | .colon :: ts =>
        match h : s.readMember care name ts with
        | .ok (v, .comma :: rest) =>
          have := readMember_length h
          readMembers s care (s.keep seen name v) rest
        | .ok (v, .closeObj :: rest) => s.finish (s.keep seen name v) rest
        | .ok _ => .error .malformed
        | .error e => .error e
      | _ => .error .malformed
  | _ => .error .malformed
termination_by ts.length
decreasing_by simp_all only [List.length_cons]; omega

def readItems (s : Schema) (care : Care) (seen : Fields) (first : Bool) :
    List Member → List Token → Except Fault (Fields × List Token)
  | [], .closeArr :: ts => .ok (seen, ts)
  | [], _ => .error .malformed
  | m :: ms, ts =>
    match ts, s.positional with
    | .closeArr :: ts, .upTo => .ok (seen, ts)
    | .closeArr :: _, _ => .error .mismatch
    | ts, _ =>
      let item := match ts with
        | .comma :: rest => if first then ts else rest
        | _ => if first then ts else []
      match m.shape.read care item with
      | .ok (v, rest) => readItems s care (seen.insert m.name v) false ms rest
      | .error e => .error e

def read (s : Schema) (care : Care) (ts : List Token) : Except Fault (Fields × List Token) :=
  match ts, s.positional with
  | .openObj :: .closeObj :: ts, _ => s.finish [] ts
  | .openObj :: ts, _ => s.readMembers care.inner [] ts
  | .openArr :: _, .refused => .error .mismatch
  | .openArr :: ts, _ => s.readItems care.inner [] true s.members ts
  | ts, _ => .error (faultAt ts)

/-- A text that is one record and nothing else. What follows a record is looked at last. -/
def ofUnits (s : Schema) (units : List (Option Char)) : Except Fault Fields :=
  match s.read .standard (tokens units) with
  | .ok (fs, []) => .ok fs
  | .ok _ => .error .malformed
  | .error e => .error e

/-- The known members of an object, if each has its shape and none is missing. -/
def ofFields? (s : Schema) (fs : Fields) : Option Fields :=
  let known : Fields := fs.filter fun f => (s.member? f.1).isSome
  let fits := known.all fun f => ((s.member? f.1).map fun m => m.shape.conforms f.2).getD false
  if fits && s.required.all (fun n => (Keyed.get? known n).isSome) then some known else none

end Schema

end AppBackend.Json
