import AppBackend.Json.Token
import AppBackend.Text.Utf8

/-!
# Reading JSON

A value from a list of tokens, by a machine whose stack holds the arrays and objects still open.
With full care numbers must be in range, strings must stand for text and only so many containers may
be open at once; skimming checks the grammar alone. Main statement: `readValue_length`, reading a
value uses up at least one token.
-/

namespace AppBackend.Json

/-- Why a text is refused: it is no JSON, or it is JSON of the wrong shape. -/
inductive Fault where
  | malformed
  | mismatch
deriving DecidableEq

/-- How closely a value is looked at. -/
inductive Care where
  /-- Everything is checked, and at most `room` containers are open at once. -/
  | full (room : Nat)
  | skim

namespace Care

def hasRoom : Care → Nat → Bool
  | .full room, opened => opened < room
  | .skim, _ => true

def number? : Care → Literal → Option Json
  | .full _, l => l.value?
  | .skim, _ => some .null

def text? : Care → Option String → Option String
  | .full _, s => s
  | .skim, s => some (s.getD "")

/-- The care for a value one container further in. -/
def inner : Care → Care
  | .full room => .full (room - 1)
  | .skim => .skim

end Care

/-- The care for a whole text: 127 containers may be open at once. -/
def Care.standard : Care := .full 127

/-! ### The machine -/

inductive Frame where
  /-- The items read, in reverse. -/
  | arr (items : List Json)
  /-- The members read, and the key whose value comes next. -/
  | obj (members : Fields) (key : String)

inductive Expect where
  | value
  | itemOrClose
  | keyOrClose
  | key
  | colon
  | commaOrClose

structure Machine where
  frames : List Frame
  expect : Expect

inductive Progress where
  | more (m : Machine)
  | done (v : Json)
  | refused

/-- A value complete: it goes into the innermost open container. -/
def complete (v : Json) : List Frame → Progress
  | [] => .done v
  | .arr items :: fs => .more ⟨.arr (v :: items) :: fs, .commaOrClose⟩
  | .obj members key :: fs => .more ⟨.obj (members.insert key v) key :: fs, .commaOrClose⟩

def beginValue (care : Care) (fs : List Frame) : Token → Progress
  | .null => complete .null fs
  | .bool b => complete (.bool b) fs
  | .number l => match care.number? l with
    | some v => complete v fs
    | none => .refused
  | .text s => match care.text? s with
    | some t => complete (.str t) fs
    | none => .refused
  | .openArr => if care.hasRoom fs.length then .more ⟨.arr [] :: fs, .itemOrClose⟩ else .refused
  | .openObj => if care.hasRoom fs.length then .more ⟨.obj [] "" :: fs, .keyOrClose⟩ else .refused
  | _ => .refused

def takeKey (care : Care) (fs : List Frame) (s : Option String) : Progress :=
  match fs, care.text? s with
  | .obj members _ :: fs, some k => .more ⟨.obj members k :: fs, .colon⟩
  | _, _ => .refused

def Machine.step (care : Care) (m : Machine) (t : Token) : Progress :=
  match m.expect, m.frames, t with
  | .value, fs, t => beginValue care fs t
  | .itemOrClose, .arr items :: fs, .closeArr => complete (.arr items.reverse) fs
  | .itemOrClose, fs, t => beginValue care fs t
  | .keyOrClose, .obj members _ :: fs, .closeObj => complete (.obj members) fs
  | .keyOrClose, fs, .text s => takeKey care fs s
  | .key, fs, .text s => takeKey care fs s
  | .colon, fs, .colon => .more ⟨fs, .value⟩
  | .commaOrClose, .arr items :: fs, .comma => .more ⟨.arr items :: fs, .value⟩
  | .commaOrClose, .arr items :: fs, .closeArr => complete (.arr items.reverse) fs
  | .commaOrClose, .obj members key :: fs, .comma => .more ⟨.obj members key :: fs, .key⟩
  | .commaOrClose, .obj members _ :: fs, .closeObj => complete (.obj members) fs
  | _, _, _ => .refused

/-- Reads on until the value is complete; the tokens after it are left. -/
def Machine.run (care : Care) (m : Machine) : List Token → Except Fault (Json × List Token)
  | [] => .error .malformed
  | t :: ts =>
    match m.step care t with
    | .more m' => m'.run care ts
    | .done v => .ok (v, ts)
    | .refused => .error .malformed

def readValue (care : Care) (ts : List Token) : Except Fault (Json × List Token) :=
  Machine.run care ⟨[], .value⟩ ts

theorem Machine.run_length {care : Care} {m : Machine} {ts rest : List Token} {v : Json}
    (h : m.run care ts = .ok (v, rest)) : rest.length < ts.length := by
  induction ts generalizing m with
  | nil => simp [Machine.run] at h
  | cons t ts ih =>
    rw [Machine.run] at h
    split at h
    · exact Nat.lt_succ_of_lt (ih h)
    · simp only [Except.ok.injEq, Prod.mk.injEq] at h
      rw [← h.2]
      exact Nat.lt_succ_self _
    · simp at h

theorem readValue_length {care : Care} {ts rest : List Token} {v : Json}
    (h : readValue care ts = .ok (v, rest)) : rest.length < ts.length :=
  Machine.run_length h

/-! ### Whole texts -/

/-- A text that is one value and nothing else. -/
def ofUnits? (units : List (Option Char)) : Option Json :=
  match readValue .standard (tokens units) with
  | .ok (v, []) => some v
  | _ => none

def ofString? (s : String) : Option Json := ofUnits? (s.toList.map some)

def ofBytes? (bs : Bytes) : Option Json := ofUnits? (Utf8.decode bs)

end AppBackend.Json
