import AppBackend.Transfer.Head

/-!
# Heads read back

A head is written as lines and read back from whatever lines an engine has reported. Writer and
reader share no definition: the one joins texts, the other looks for the last line that begins like
a status line, counts octets in it, and cuts the lines after it at colons. Main statement:
`response_of_rendered`, what is read is the head that was written last, with the body.
-/

namespace AppBackend

/-! ### Texts with a line end -/

namespace Text

theorem length_le_octetCount (cs : List Char) : cs.length ≤ octetCount cs := by
  induction cs with
  | nil => exact Nat.zero_le _
  | cons c cs ih =>
    have hpos : 0 < c.utf8Size := Char.utf8Size_pos c
    simp only [octetCount, List.foldr_cons, List.length_cons] at ih ⊢
    omega

theorem octetCount_ofList (cs : List Char) :
    octetCount cs = (String.ofList cs).utf8ByteSize := by
  induction cs with
  | nil => rfl
  | cons c cs ih =>
    have hsplit : String.ofList (c :: cs) = String.singleton c ++ String.ofList cs := by
      rw [String.singleton_eq_ofList, ← String.ofList_append]
      rfl
    rw [hsplit, String.utf8ByteSize_append, String.utf8ByteSize_singleton, ← ih]
    rfl

theorem dropOctets?_append {cs : List Char} (h : ∀ c ∈ cs, c.utf8Size = 1) (ds : List Char) :
    dropOctets? cs.length (cs ++ ds) = some ds := by
  induction cs with
  | nil =>
    rw [List.length_nil, List.nil_append]
    unfold dropOctets?
    rfl
  | cons c cs ih =>
    have hc : c.utf8Size = 1 := h c (List.mem_cons_self ..)
    rw [List.length_cons, List.cons_append, dropOctets?, if_pos (by omega), hc,
      Nat.add_sub_cancel]
    exact ih fun d hd => h d (List.mem_cons_of_mem _ hd)

end Text

namespace StatusLine

theorem stripLineEnd_append (cs : List Char) : stripLineEnd (cs ++ ['\r', '\n']) = cs := by
  have hreverse : (cs ++ ['\r', '\n']).reverse = '\n' :: '\r' :: cs.reverse := by simp
  rw [stripLineEnd, hreverse]
  exact List.reverse_reverse cs

theorem utf8Size_of_isDigit {c : Char} (h : Numeral.isDigit c = true) : c.utf8Size = 1 := by
  simp only [Numeral.isDigit, Bool.and_eq_true, decide_eq_true_eq] at h
  have hle : c.val.toNat ≤ 57 := h.2
  apply Char.utf8Size_eq_one_iff.2
  rw [UInt32.le_iff_toNat_le]
  exact Nat.le_trans hle (by decide)

/-- No beginning of a status line has a colon, so a name before a colon shows whether the whole line
has one. -/
theorem isPrefixOf_append_colon {b : List Char} (hb : ':' ∉ b) (name rest : List Char) :
    b.isPrefixOf (name ++ ':' :: rest) = b.isPrefixOf name := by
  induction b generalizing name with
  | nil => rfl
  | cons c b ih =>
    have hc : c ≠ ':' := fun e => hb (e ▸ List.mem_cons_self ..)
    cases name with
    | nil => simp [List.isPrefixOf, hc]
    | cons d name =>
      rw [List.cons_append, List.isPrefixOf, List.isPrefixOf,
        ih fun hm => hb (List.mem_cons_of_mem _ hm)]

end StatusLine

theorem toList_headerLine (name value : String) :
    (Request.headerLine name value ++ Head.lineEnd).toList
      = name.toList ++ ':' :: (' ' :: value.toList ++ ['\r', '\n']) := by
  simp [Request.headerLine, Head.lineEnd, String.toList_append]

/-- A line of a name and a value reads back when the name has no colon and the value does not begin
with a space. -/
theorem headerOfLine?_headerLine {name value : String} (hn : ':' ∉ name.toList)
    (hv : value.toList.head? ≠ some ' ') :
    headerOfLine? (Request.headerLine name value ++ Head.lineEnd) = some (name, value) := by
  have htrim : Text.trimStart (· == ' ') (' ' :: value.toList) = value.toList := by
    have hself : Text.trimStart (· == ' ') value.toList = value.toList := by
      apply Text.trimStart_eq_self
      intro c hc
      rw [beq_eq_false_iff_ne]
      rintro rfl
      exact hv hc
    simpa [Text.trimStart] using hself
  rw [headerOfLine?, toList_headerLine, Text.cut?_append _ hn, Option.map_some,
    StatusLine.stripLineEnd_append, htrim, String.ofList_toList, String.ofList_toList]

namespace Head

/-! ### Status lines -/

/-- Three digits that spell a number, which may begin with zeros. -/
structure SpellsCode (code : List Char) (n : Nat) : Prop where
  length : code.length = 3
  digits : ∀ c ∈ code, Numeral.isDigit c = true
  value : Numeral.value code = n

theorem spellsCode_write {n : Nat} (hlow : 100 ≤ n) (hhigh : n ≤ 999) :
    SpellsCode (Numeral.write n) n where
  length := by
    have hle : (Nat.toDigits 10 n).length ≤ 3 :=
      (Nat.length_toDigits_le_iff (by decide) (by decide)).2 (by omega)
    have hgt : ¬ (Nat.toDigits 10 n).length ≤ 2 := by
      intro h
      have := (Nat.length_toDigits_le_iff (by decide) (by decide)).1 h
      omega
    show (Nat.toDigits 10 n).length = 3
    omega
  digits := fun _ hc => Numeral.isDigit_of_mem_write hc
  value := Numeral.value_write n

def statusLineAs (h : Head) (code : List Char) : String :=
  h.version.text ++ " " ++ String.ofList code ++ " " ++ h.reason ++ lineEnd

/-- The lines of a head with its code spelled so. -/
def linesAs (h : Head) (code : List Char) : List String :=
  h.statusLineAs code :: h.headers.map (fun p => Request.headerLine p.1 p.2 ++ lineEnd) ++ [lineEnd]

theorem lines_eq (h : Head) : h.lines = h.linesAs (Numeral.write h.status) := rfl

section
variable {h : Head} {code : List Char} {n : Nat}

theorem toList_statusLineAs (h : Head) (code : List Char) :
    (h.statusLineAs code).toList = (h.version.text.toList ++ ' ' :: code)
      ++ ' ' :: (h.reason.toList ++ ['\r', '\n']) := by
  simp [statusLineAs, lineEnd, String.toList_append]

theorem length_marker (hc : SpellsCode code n) :
    (h.version.text.toList ++ ' ' :: code).length = StatusLine.codeEnd := by
  have hversion : h.version.text.toList.length = 8 := by cases h.version <;> rfl
  rw [List.length_append, List.length_cons, hc.length, hversion]
  rfl

theorem isStatusLine_statusLineAs (hc : SpellsCode code n) :
    StatusLine.isStatusLine (h.statusLineAs code) = true := by
  have hlong : StatusLine.codeEnd < Text.octetCount (h.statusLineAs code).toList := by
    have hle := Text.length_le_octetCount (h.statusLineAs code).toList
    have hmarker := length_marker (h := h) hc
    rw [toList_statusLineAs] at hle ⊢
    rw [List.length_append, hmarker, List.length_cons] at hle
    omega
  have hbegins : (StatusLine.beginnings.any fun b => b.isPrefixOf (h.statusLineAs code).toList)
      = true := by
    rw [toList_statusLineAs]
    cases h.version <;> rfl
  simp only [StatusLine.isStatusLine, Bool.and_eq_true, decide_eq_true_eq]
  exact ⟨hlong, hbegins⟩

theorem code_statusLineAs (hc : SpellsCode code n) :
    StatusLine.code (h.statusLineAs code) = n := by
  have hcode : ((h.statusLineAs code).toList.drop StatusLine.codeStart).take
      (StatusLine.codeEnd - StatusLine.codeStart) = code := by
    have hdrop : (h.statusLineAs code).toList.drop StatusLine.codeStart
        = code ++ ' ' :: (h.reason.toList ++ ['\r', '\n']) := by
      rw [toList_statusLineAs]
      cases h.version <;> rfl
    rw [hdrop]
    exact List.take_left' hc.length
  have hall : code.all Numeral.isDigit = true := List.all_eq_true.2 hc.digits
  unfold StatusLine.code
  rw [hcode, if_pos ⟨hc.length, hall⟩, hc.value]

theorem reason_statusLineAs (hc : SpellsCode code n) :
    StatusLine.reason (h.statusLineAs code) = h.reason := by
  have hmarker : ∀ c ∈ h.version.text.toList ++ ' ' :: code, c.utf8Size = 1 := by
    have hversion : (h.version.text.toList.all fun c => c.utf8Size == 1) = true := by
      cases h.version <;> decide
    intro c hmem
    rcases List.mem_append.1 hmem with hmem | hmem
    · exact eq_of_beq (List.all_eq_true.1 hversion c hmem)
    · rcases List.mem_cons.1 hmem with rfl | hmem
      · decide
      · exact StatusLine.utf8Size_of_isDigit (hc.digits c hmem)
  have hdrop : Text.dropOctets? StatusLine.codeEnd (h.statusLineAs code).toList
      = some (' ' :: (h.reason.toList ++ ['\r', '\n'])) := by
    rw [toList_statusLineAs, ← length_marker (h := h) hc]
    exact Text.dropOctets?_append hmarker _
  have hnonempty : (h.reason.toList ++ ['\r', '\n']).isEmpty = false := by simp
  rw [StatusLine.reason, hdrop]
  simp only [hnonempty, Bool.false_eq_true, if_false, StatusLine.stripLineEnd_append,
    String.ofList_toList]

end

/-! ### Header lines -/

/-- What makes header lines read back: no name has a colon or begins like a status line, and no
value begins with a space. -/
structure Readable (h : Head) : Prop where
  noColon : ∀ p ∈ h.headers, ':' ∉ p.1.toList
  noStatus : ∀ p ∈ h.headers, ∀ b ∈ StatusLine.beginnings, b.isPrefixOf p.1.toList = false
  noSpace : ∀ p ∈ h.headers, p.2.toList.head? ≠ some ' '

theorem isStatusLine_headerLine {name : String} (value : String)
    (hn : ∀ b ∈ StatusLine.beginnings, b.isPrefixOf name.toList = false) :
    StatusLine.isStatusLine (Request.headerLine name value ++ lineEnd) = false := by
  have hcolon : ∀ b ∈ StatusLine.beginnings, ':' ∉ b := by decide
  have hbegins : (StatusLine.beginnings.any fun b =>
      b.isPrefixOf (Request.headerLine name value ++ lineEnd).toList) = false := by
    rw [List.any_eq_false]
    intro b hb
    rw [toList_headerLine, StatusLine.isPrefixOf_append_colon (hcolon b hb), hn b hb]
    decide
  rw [StatusLine.isStatusLine, hbegins, Bool.and_false]

theorem isStatusLine_lineEnd : StatusLine.isStatusLine lineEnd = false := by decide

/-- The last status line of the lines of a head is the head's. -/
theorem lastStatus?_linesAs {h : Head} {code : List Char} (hc : SpellsCode code h.status)
    (hn : ∀ p ∈ h.headers, ∀ b ∈ StatusLine.beginnings, b.isPrefixOf p.1.toList = false) :
    Transcript.lastStatus? (h.linesAs code)
      = some (h.statusLineAs code,
        h.headers.map (fun p => Request.headerLine p.1 p.2 ++ lineEnd) ++ [lineEnd]) := by
  refine Transcript.lastStatus?_eq_some_iff.2 ⟨[], rfl, isStatusLine_statusLineAs hc, ?_⟩
  intro l hl
  rcases List.mem_append.1 hl with hl | hl
  · obtain ⟨p, hp, rfl⟩ := List.mem_map.1 hl
    exact isStatusLine_headerLine p.2 (hn p hp)
  · rw [List.mem_singleton.1 hl]
    exact isStatusLine_lineEnd

theorem filterMap_headerLines {h : Head} (hr : h.Readable) :
    (h.headers.map (fun p => Request.headerLine p.1 p.2 ++ lineEnd) ++ [lineEnd]).filterMap
      headerOfLine? = h.headers := by
  have hlast : [lineEnd].filterMap headerOfLine? = [] := by decide
  have hpairs : ∀ ps : Pairs, (∀ p ∈ ps, p ∈ h.headers) →
      (ps.map fun p => Request.headerLine p.1 p.2 ++ lineEnd).filterMap headerOfLine? = ps := by
    intro ps hps
    induction ps with
    | nil => rfl
    | cons p ps ih =>
      have hp := hps p (List.mem_cons_self ..)
      rw [List.map_cons, List.filterMap_cons_some
        (headerOfLine?_headerLine (hr.noColon p hp) (hr.noSpace p hp)),
        ih fun q hq => hps q (List.mem_cons_of_mem _ hq)]
  rw [List.filterMap_append, hlast, List.append_nil]
  exact hpairs h.headers fun p hp => hp

/-! ### What an engine reports -/

theorem headerLines_map_header (lines : List String) : headerLines (lines.map .header) = lines := by
  induction lines with
  | nil => rfl
  | cons l lines ih => rw [List.map_cons, headerLines_header, ih]

theorem headerLines_map_chunk (chunks : List Bytes) : headerLines (chunks.map .chunk) = [] := by
  induction chunks with
  | nil => rfl
  | cons b chunks ih => rw [List.map_cons, headerLines_chunk, ih]

theorem octets_map_header (lines : List String) : octets (lines.map .header) = [] := by
  induction lines with
  | nil => rfl
  | cons l lines ih => rw [List.map_cons, octets_header, ih]

theorem octets_map_chunk (chunks : List Bytes) : octets (chunks.map .chunk) = chunks.flatten := by
  induction chunks with
  | nil => rfl
  | cons b chunks ih => rw [List.map_cons, octets_chunk, ih, List.flatten_cons]

theorem headerLines_exchange (h : Head) (chunks : List Bytes)
    (ending : Except TransferError Unit) :
    headerLines (h.exchange chunks ending).events = h.lines := by
  rw [exchange, headerLines_append, headerLines_map_header, headerLines_map_chunk, List.append_nil]

theorem octets_exchange (h : Head) (chunks : List Bytes) (ending : Except TransferError Unit) :
    octets (h.exchange chunks ending).events = chunks.flatten := by
  rw [exchange, octets_append, octets_map_header, octets_map_chunk, List.nil_append]

/-! ### Reading back -/

theorem response_of_linesAs {h : Head} (hr : h.Readable) {code : List Char}
    (hc : SpellsCode code h.status) {earlier : List String} {es : List Event}
    (hes : headerLines es = earlier ++ h.linesAs code) :
    (es.foldl Transcript.accept {}).response = ⟨h.status, h.reason, h.headers, octets es⟩ := by
  have hlast := lastStatus?_linesAs hc hr.noStatus
  have hsome : Transcript.lastStatus? (h.linesAs code) ≠ none := by
    rw [hlast]
    nofun
  rw [Transcript.foldl_accept, hes, List.nil_append, List.nil_append,
    Transcript.response_append_lines _ _ _ hsome]
  simp only [Transcript.response, hlast, code_statusLineAs hc, reason_statusLineAs hc,
    filterMap_headerLines hr]

/-- Whatever lines come before a head, and wherever the chunks of the body come, what is read is the
head and the body: its code in three digits, its reason, and its header pairs in their order. That
is so in particular of what an engine reports. -/
theorem response_of_rendered {h : Head} (hr : h.Readable) (earlier : List String) :
    (∀ code es, SpellsCode code h.status → headerLines es = earlier ++ h.linesAs code →
      (es.foldl Transcript.accept {}).response = ⟨h.status, h.reason, h.headers, octets es⟩) ∧
    (100 ≤ h.status → h.status ≤ 999 → ∀ chunks ending,
      ((earlier.map Event.header ++ (h.exchange chunks ending).events).foldl Transcript.accept
        {}).response = ⟨h.status, h.reason, h.headers, chunks.flatten⟩) := by
  refine ⟨fun code es hc hes => response_of_linesAs hr hc hes, ?_⟩
  intro hlow hhigh chunks ending
  have hes : headerLines (earlier.map Event.header ++ (h.exchange chunks ending).events)
      = earlier ++ h.linesAs (Numeral.write h.status) := by
    rw [headerLines_append, headerLines_map_header, headerLines_exchange, lines_eq]
  have hoctets : octets (earlier.map Event.header ++ (h.exchange chunks ending).events)
      = chunks.flatten := by
    rw [octets_append, octets_map_header, octets_exchange, List.nil_append]
  rw [response_of_linesAs hr (spellsCode_write hlow hhigh) hes, hoctets]

/-- A reply of a proxy comes first; then a code with zeros, no reason, one name twice, a value with
a colon and one with a line end of its own, and a chunk among the header lines. -/
theorem response_of_rendered_of_proxy :
    let es : List Event :=
      [.header "HTTP/1.1 200 Connection established\r\n", .header "Via: 1.1 p\r\n",
        .header "\r\n", .chunk [1], .header "HTTP/1.0 007 \r\n", .header "A: b: c\r\n",
        .chunk [2], .header "A: d\r\n\r\n", .header "\r\n", .chunk [3]]
    (es.foldl Transcript.accept {}).response
      = ⟨7, "", [("A", "b: c"), ("A", "d\r\n")], [1, 2, 3]⟩ := by
  intro es
  let h : Head := ⟨.http10, 7, "", [("A", "b: c"), ("A", "d\r\n")]⟩
  have hr : h.Readable := ⟨by decide, by decide, by decide⟩
  have hc : SpellsCode ['0', '0', '7'] h.status := ⟨rfl, List.all_eq_true.1 (by decide), by decide⟩
  exact (response_of_rendered hr
    ["HTTP/1.1 200 Connection established\r\n", "Via: 1.1 p\r\n", "\r\n"]).1 _ es hc
    (by decide +kernel)

end Head
end AppBackend
