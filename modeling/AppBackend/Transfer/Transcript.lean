import AppBackend.Http.Response
import AppBackend.Text.Numeral

/-!
# Transcripts

What an engine reports during a transfer, in order: header lines with their line ends, and chunks of
the body. A transcript keeps both; `response` reads them. The last status line rules, so the reply
of a proxy before it is passed over. Main statements: `response_append_lines` says that nothing
before the last status line survives, `lastStatus?_eq_some_iff` finds that line.
-/

namespace AppBackend

inductive Event where
  | header (line : String)
  | chunk (bytes : Bytes)
deriving DecidableEq

def Event.line? : Event → Option String
  | .header line => some line
  | .chunk _ => none

def Event.octets : Event → Bytes
  | .header _ => []
  | .chunk bytes => bytes

def headerLines (es : List Event) : List String := es.filterMap Event.line?

/-- The octets of all chunks, one after the other. -/
def octets (es : List Event) : Bytes := es.flatMap Event.octets

@[simp] theorem headerLines_header (line : String) (es : List Event) :
    headerLines (.header line :: es) = line :: headerLines es := rfl

@[simp] theorem headerLines_chunk (bytes : Bytes) (es : List Event) :
    headerLines (.chunk bytes :: es) = headerLines es := rfl

@[simp] theorem octets_header (line : String) (es : List Event) :
    octets (.header line :: es) = octets es := rfl

@[simp] theorem octets_chunk (bytes : Bytes) (es : List Event) :
    octets (.chunk bytes :: es) = bytes ++ octets es := rfl

theorem headerLines_append (es fs : List Event) :
    headerLines (es ++ fs) = headerLines es ++ headerLines fs := List.filterMap_append

theorem octets_append (es fs : List Event) : octets (es ++ fs) = octets es ++ octets fs :=
  List.flatMap_append

/-! ### Lines -/

namespace StatusLine

def beginnings : List (List Char) := ["HTTP/1.1 ".toList, "HTTP/1.0 ".toList]

/-- The octets before the code, and those up to its end. -/
def codeStart : Nat := 9

def codeEnd : Nat := 12

/-- A line counts as a status line if it begins like one and has room for more than a code. -/
def isStatusLine (line : String) : Bool :=
  let cs := line.toList
  Text.octetCount cs > codeEnd && beginnings.any fun b => b.isPrefixOf cs

def code (line : String) : Nat :=
  let cs := (line.toList.drop codeStart).take (codeEnd - codeStart)
  if cs.length = codeEnd - codeStart ∧ cs.all Numeral.isDigit then Numeral.value cs else 0

def isLineEnd (c : Char) : Bool := c == '\r' || c == '\n'

/-- A text without its line end. Without a proper one all trailing carriage returns and line feeds
go, and a text of a single octet is dropped. -/
def stripLineEnd (cs : List Char) : List Char :=
  match cs.reverse with
  | '\n' :: '\r' :: rev => rev.reverse
  | _ => if 2 ≤ Text.octetCount cs then Text.trimEnd isLineEnd cs else []

/-- What follows the code and a space. -/
def reason (line : String) : String :=
  match Text.dropOctets? codeEnd line.toList with
  | some (' ' :: rest) => if rest.isEmpty then "" else String.ofList (stripLineEnd rest)
  | _ => ""

end StatusLine

/-- A header line as name and value; leading spaces of the value are dropped. A line without a colon
is none. -/
def headerOfLine? (line : String) : Option (String × String) :=
  (Text.cut? ':' line.toList).map fun p =>
    (String.ofList p.1,
      String.ofList (Text.trimStart (· == ' ') (StatusLine.stripLineEnd p.2)))

/-! ### Transcripts -/

structure Transcript where
  lines : List String := []
  body : Bytes := []
deriving DecidableEq, Inhabited

namespace Transcript

def accept (t : Transcript) : Event → Transcript
  | .header line => { t with lines := t.lines ++ [line] }
  | .chunk bytes => { t with body := t.body ++ bytes }

/-- What a transcript holds after events. -/
theorem foldl_accept (es : List Event) (t : Transcript) :
    es.foldl accept t = ⟨t.lines ++ headerLines es, t.body ++ octets es⟩ := by
  induction es generalizing t with
  | nil => simp [headerLines, octets]
  | cons e es ih =>
    rw [List.foldl_cons, ih]
    cases e <;> simp [accept]

/-- The last status line and the lines after it. -/
def lastStatus? : List String → Option (String × List String)
  | [] => none
  | line :: lines =>
    match lastStatus? lines with
    | some found => some found
    | none => if StatusLine.isStatusLine line then some (line, lines) else none

def status (t : Transcript) : Nat :=
  match lastStatus? t.lines with
  | some (line, _) => StatusLine.code line
  | none => 0

/-- The reply. Without a status line it has a body at most. -/
def response (t : Transcript) : Response :=
  match lastStatus? t.lines with
  | some (line, lines) =>
    ⟨StatusLine.code line, StatusLine.reason line, lines.filterMap headerOfLine?, t.body⟩
  | none => { body := t.body }

/-! ### Finding the last status line -/

theorem lastStatus?_append_of_some (before : List String) {lines : List String}
    {found : String × List String} (h : lastStatus? lines = some found) :
    lastStatus? (before ++ lines) = some found := by
  induction before with
  | nil => exact h
  | cons b before ih => simp [lastStatus?, ih]

theorem lastStatus?_eq_none {lines : List String}
    (h : ∀ l ∈ lines, StatusLine.isStatusLine l = false) : lastStatus? lines = none := by
  induction lines with
  | nil => rfl
  | cons l lines ih =>
    simp [lastStatus?, ih fun x hx => h x (List.mem_cons_of_mem _ hx), h l (by simp)]

theorem eq_of_lastStatus? {lines after : List String} {line : String}
    (h : lastStatus? lines = some (line, after)) :
    ∃ before, lines = before ++ line :: after ∧ StatusLine.isStatusLine line = true ∧
      ∀ l ∈ after, StatusLine.isStatusLine l = false := by
  induction lines with
  | nil => simp [lastStatus?] at h
  | cons l lines ih =>
    rw [lastStatus?] at h
    cases hl : lastStatus? lines with
    | some found =>
      simp only [hl, Option.some.injEq] at h
      subst h
      obtain ⟨before, rfl, h1, h2⟩ := ih hl
      exact ⟨l :: before, rfl, h1, h2⟩
    | none =>
      simp only [hl] at h
      split at h
      · rename_i hs
        simp only [Option.some.injEq, Prod.mk.injEq] at h
        obtain ⟨rfl, rfl⟩ := h
        refine ⟨[], rfl, hs, ?_⟩
        intro x hx
        cases hx' : StatusLine.isStatusLine x with
        | false => rfl
        | true =>
          exfalso
          obtain ⟨a, b, rfl⟩ := List.append_of_mem hx
          have hb : ∃ found, lastStatus? (x :: b) = some found := by
            rw [lastStatus?]
            split
            · exact ⟨_, rfl⟩
            · simp [hx']
          obtain ⟨found, hf⟩ := hb
          rw [lastStatus?_append_of_some a hf] at hl
          simp at hl
      · simp at h

/-- The last status line is the one after which none comes. -/
theorem lastStatus?_eq_some_iff {lines after : List String} {line : String} :
    lastStatus? lines = some (line, after) ↔
      ∃ before, lines = before ++ line :: after ∧ StatusLine.isStatusLine line = true ∧
        ∀ l ∈ after, StatusLine.isStatusLine l = false := by
  constructor
  · exact eq_of_lastStatus?
  · rintro ⟨before, rfl, h1, h2⟩
    apply lastStatus?_append_of_some
    simp [lastStatus?, lastStatus?_eq_none h2, h1]

/-- Lines before the last status line leave no trace in the reply. -/
theorem response_append_lines (before lines : List String) (body : Bytes)
    (h : lastStatus? lines ≠ none) :
    (⟨before ++ lines, body⟩ : Transcript).response = (⟨lines, body⟩ : Transcript).response := by
  obtain ⟨found, hf⟩ := Option.ne_none_iff_exists'.1 h
  simp [response, hf, lastStatus?_append_of_some before hf]

theorem response_status (t : Transcript) : t.response.status = t.status := by
  unfold response status
  split <;> simp_all

theorem response_body (t : Transcript) : t.response.body = t.body := by
  unfold response
  split <;> rfl

/-- The body has no part in how the lines are read. -/
theorem response_of_lines (lines : List String) (body other : Bytes) :
    (⟨lines, body⟩ : Transcript).response
      = { (⟨lines, other⟩ : Transcript).response with body } := by
  unfold response
  dsimp only
  split <;> rfl

end Transcript
end AppBackend
