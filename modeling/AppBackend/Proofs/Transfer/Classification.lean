import AppBackend.Proofs.Transfer.Rendering
import AppBackend.Transfer.Executor
import AppBackend.Transfer.Replay

/-!
# Outcomes of transfers

What a plain request comes to, said of the events and of how the transfer ended. Of the header lines
only the last one that announces a reply counts, and of that its code; of the chunks only what they
make up together. Main statement: `outcome_follows_last_code`.
-/

namespace AppBackend

variable {ε ω : Type}

/-! ### The code of a reply -/

namespace StatusLine

/-- A line that announces a reply, with room for more than a code. -/
structure Announces (line : String) : Prop where
  begins : "HTTP/1.1 ".toList <+: line.toList ∨ "HTTP/1.0 ".toList <+: line.toList
  long : 12 < line.utf8ByteSize

/-- Three digits come after the first nine characters of a line. -/
def Spells (line : String) (n : Nat) : Prop :=
  ∃ start code rest, line.toList = start ++ code ++ rest ∧ start.length = 9 ∧ Head.SpellsCode code n

/-- The code that a line has, or 0 if it spells none. -/
def HasCode (line : String) (n : Nat) : Prop :=
  Spells line n ∨ (∀ m, ¬ Spells line m) ∧ n = 0

theorem isStatusLine_iff {line : String} : isStatusLine line = true ↔ Announces line := by
  have hbegins : (beginnings.any fun b => b.isPrefixOf line.toList) = true ↔
      "HTTP/1.1 ".toList <+: line.toList ∨ "HTTP/1.0 ".toList <+: line.toList := by
    simp [beginnings, List.isPrefixOf_iff_prefix]
  rw [isStatusLine, Bool.and_eq_true, decide_eq_true_eq, Text.octetCount_ofList,
    String.ofList_toList, hbegins]
  constructor
  · intro h
    exact ⟨h.2, h.1⟩
  · intro h
    exact ⟨h.long, h.begins⟩

theorem code_of_spells {line : String} {n : Nat} (h : Spells line n) : code line = n := by
  obtain ⟨start, digits, rest, hline, hstart, hcode⟩ := h
  have hplace : (line.toList.drop codeStart).take (codeEnd - codeStart) = digits := by
    rw [hline, List.append_assoc, codeStart, List.drop_left' hstart]
    exact List.take_left' hcode.length
  rw [code, hplace, if_pos ⟨hcode.length, List.all_eq_true.2 hcode.digits⟩, hcode.value]

theorem spells_of_code {line : String} {cs : List Char}
    (hplace : (line.toList.drop codeStart).take (codeEnd - codeStart) = cs)
    (h : cs.length = codeEnd - codeStart ∧ cs.all Numeral.isDigit = true) :
    Spells line (Numeral.value cs) := by
  -- a shorter line would have no characters in the place of the code
  have hlong : codeStart ≤ line.toList.length := by
    have hlength := congrArg List.length hplace
    rw [List.length_take, List.length_drop, h.1, codeEnd, codeStart] at hlength
    rw [codeStart]
    omega
  refine ⟨line.toList.take codeStart, cs, (line.toList.drop codeStart).drop (codeEnd - codeStart),
    ?_, List.length_take_of_le hlong, h.1, List.all_eq_true.1 h.2, rfl⟩
  rw [← hplace, List.append_assoc, List.take_append_drop, List.take_append_drop]

theorem hasCode_iff {line : String} {n : Nat} : HasCode line n ↔ code line = n := by
  constructor
  · rintro (h | ⟨hno, rfl⟩)
    · exact code_of_spells h
    · rw [code]
      exact if_neg fun h => hno _ (spells_of_code rfl h)
  · rintro rfl
    by_cases h : ∃ m, Spells line m
    · obtain ⟨m, hm⟩ := h
      exact Or.inl (code_of_spells hm ▸ hm)
    · rw [not_exists] at h
      refine Or.inr ⟨h, ?_⟩
      rw [code]
      exact if_neg fun hdigits => h _ (spells_of_code rfl hdigits)

end StatusLine

open StatusLine in
/-- The code of the last line that announces a reply, or 0 if none does. -/
inductive LastCode : List String → Nat → Prop where
  | none {lines : List String} (h : ∀ l ∈ lines, ¬ Announces l) : LastCode lines 0
  | last {line : String} {n : Nat} (before : List String) {after : List String}
      (hline : Announces line) (hafter : ∀ l ∈ after, ¬ Announces l) (hcode : HasCode line n) :
      LastCode (before ++ line :: after) n

theorem Transcript.not_isStatusLine_of_lastStatus? {lines : List String}
    (h : lastStatus? lines = none) : ∀ l ∈ lines, StatusLine.isStatusLine l = false := by
  induction lines with
  | nil => exact fun l hl => by cases hl
  | cons line lines ih =>
    rw [lastStatus?] at h
    split at h
    · cases h
    rename_i hnone
    split at h
    · cases h
    rename_i hline
    intro l hl
    rcases List.mem_cons.1 hl with rfl | hl
    · exact Bool.eq_false_iff.2 hline
    · exact ih hnone l hl

open StatusLine in
theorem lastCode_iff {t : Transcript} {n : Nat} : LastCode t.lines n ↔ t.status = n := by
  have hnot {l : String} : isStatusLine l = false ↔ ¬ Announces l := by
    rw [← isStatusLine_iff, Bool.not_eq_true]
  rw [Transcript.status]
  generalize t.lines = lines
  constructor
  · rintro (h | ⟨before, hline, hafter, hcode⟩)
    · rw [Transcript.lastStatus?_eq_none fun l hl => hnot.2 (h l hl)]
    · rw [Transcript.lastStatus?_eq_some_iff.2
        ⟨before, rfl, isStatusLine_iff.2 hline, fun l hl => hnot.2 (hafter l hl)⟩]
      exact hasCode_iff.1 hcode
  · rintro rfl
    cases hlast : Transcript.lastStatus? lines with
    | none =>
      exact .none fun l hl => hnot.1 (Transcript.not_isStatusLine_of_lastStatus? hlast l hl)
    | some found =>
      obtain ⟨before, rfl, hline, hafter⟩ := Transcript.lastStatus?_eq_some_iff.1 hlast
      exact .last before (isStatusLine_iff.1 hline) (fun l hl => hnot.1 (hafter l hl))
        (hasCode_iff.2 rfl)

/-! ### The outcome -/

section
variable {r : Response}

theorem classify_of_broken (h : r.status < 300) (e : TransferError) :
    classify (.error e) r = .fatal e.failure := if_pos h

/-- A transfer that breaks after a reply of an error is judged by that reply. -/
theorem classify_of_le (h : 300 ≤ r.status) (ending : Except TransferError Unit) :
    classify ending r = classify (.ok ()) r := by
  cases ending with
  | ok => rfl
  | error e => exact if_neg (Nat.not_lt.2 h)

theorem classify_of_zero (h : r.status = 0) : classify (.ok ()) r = .fatal .noStatus := if_pos h

theorem classify_of_success (hlow : 200 ≤ r.status) (hhigh : r.status < 300) :
    classify (.ok ()) r = .success r := by
  have hsome : r.status ≠ 0 := by omega
  have hsuccess : r.isSuccess = true := by simp [Response.isSuccess, hlow, hhigh]
  rw [classify]
  exact (if_neg hsome).trans (if_pos hsuccess)

theorem classify_of_rest (hsome : r.status ≠ 0) (h : ¬ (200 ≤ r.status ∧ r.status < 300)) :
    classify (.ok ()) r = .rest ⟨r.status, r.bodyText⟩ := by
  have hfail : ¬ r.isSuccess = true := by simpa [Response.isSuccess] using h
  rw [classify]
  exact (if_neg hsome).trans (if_neg hfail)

end

/-- The reply that events make up: lines and octets count, and not how they are mixed. -/
theorem Exchange.toTranscript_eq (x : Exchange) :
    x.toTranscript = ⟨headerLines x.events, octets x.events⟩ := by
  rw [toTranscript, Transcript.foldl_accept, List.nil_append, List.nil_append]

theorem Executor.run_plain_fst (e : Engine ε ω) (x : Executor ε) (r : Request) (timeout : Int)
    (s : Site ω) :
    let reported := (e.perform s.disk ⟨r, effectiveTimeout timeout, none⟩ x.engine s.backend).1
    (run e x .plain r timeout s).1
      = classify reported.ending
        (⟨headerLines reported.events, octets reported.events⟩ : Transcript).response := by
  intro reported
  rw [← reported.toTranscript_eq]
  rfl

/-- Whatever an engine reports, there is one code that counts, that of the last line announcing a
reply. A transfer that fails ends in its own failure if the code is below 300; otherwise there is no
reply if the code is 0, a success if it is from 200 to 299, and else an error with the code and all
of the body. Any other transfer with the same header lines, the same body in all and the same ending
comes to the same, and after an error reply so does any other ending. -/
theorem outcome_follows_last_code (e : Engine ε ω) (x : Executor ε) (r : Request) (timeout : Int)
    (s : Site ω) :
    let reported := (e.perform s.disk ⟨r, effectiveTimeout timeout, none⟩ x.engine s.backend).1
    let result := (Executor.run e x .plain r timeout s).1
    let body := octets reported.events
    ∃ code, (∀ n, LastCode (headerLines reported.events) n ↔ n = code) ∧
      (∀ error, reported.ending = .error error → code < 300 → result = .fatal error.failure) ∧
      (reported.ending = .ok () → code = 0 → result = .fatal .noStatus) ∧
      (reported.ending = .ok () → 200 ≤ code → code < 300 → ∃ reply, result = .success reply ∧
        reply = (⟨headerLines reported.events, body⟩ : Transcript).response ∧
        reply.status = code ∧ reply.body = body) ∧
      (reported.ending = .ok () ∨ 300 ≤ code → code ≠ 0 → ¬ (200 ≤ code ∧ code < 300) →
        result = .rest ⟨code, Utf8.lossy body⟩) ∧
      ∀ (ε' ω' : Type) (e' : Engine ε' ω') (x' : Executor ε') (r' : Request) (timeout' : Int)
        (s' : Site ω'),
        let other := (e'.perform s'.disk ⟨r', effectiveTimeout timeout', none⟩ x'.engine
          s'.backend).1
        headerLines other.events = headerLines reported.events → octets other.events = body →
        other.ending = reported.ending ∨ 300 ≤ code →
        (Executor.run e' x' .plain r' timeout' s').1 = result := by
  intro reported result body
  -- the transcript keeps of the events only the lines, and the octets put together
  let t : Transcript := ⟨headerLines reported.events, body⟩
  have hresult : result = classify reported.ending t.response :=
    Executor.run_plain_fst e x r timeout s
  have hstatus : t.response.status = t.status := t.response_status
  have hbody : t.response.body = body := t.response_body
  refine ⟨t.status, fun n => (lastCode_iff (t := t)).trans eq_comm, ?_, ?_, ?_, ?_, ?_⟩
  · intro error hending hlow
    rw [hresult, hending, classify_of_broken (hstatus ▸ hlow)]
  · intro hending hzero
    rw [hresult, hending, classify_of_zero (hstatus.trans hzero)]
  · intro hending hlow hhigh
    rw [hresult, hending, classify_of_success (hstatus ▸ hlow) (hstatus ▸ hhigh)]
    exact ⟨_, rfl, rfl, hstatus, hbody⟩
  · intro hending hsome hnot
    have hok : classify reported.ending t.response = classify (.ok ()) t.response := by
      rcases hending with hending | hhigh
      · rw [hending]
      · exact classify_of_le (hstatus ▸ hhigh) _
    rw [hresult, hok, classify_of_rest (hstatus ▸ hsome) (hstatus ▸ hnot), hstatus,
      Response.bodyText, hbody]
  · intro ε' ω' e' x' r' timeout' s' other hlines hoctets hending
    rw [Executor.run_plain_fst, hlines, hoctets, hresult]
    rcases hending with hending | hhigh
    · rw [hending]
    · rw [classify_of_le (hstatus ▸ hhigh), ← classify_of_le (hstatus ▸ hhigh) reported.ending]

/-- The connection breaks after an error reply that follows a good one, or nothing breaks and all of
the body comes first; and a last status line whose code is spelled wrong after a good one. -/
theorem outcome_follows_last_code_of_broken :
    let es : List Event := [.header "HTTP/1.1 200 OK\r\n", .chunk [97],
      .header "HTTP/1.0 503 \r\n", .chunk [], .chunk [98]]
    let fs : List Event := [.chunk [97, 98], .header "HTTP/1.1 200 OK\r\n",
      .header "HTTP/1.0 503 \r\n"]
    let gs : List Event := [.header "HTTP/1.1 200 OK\r\n", .header "HTTP/1.1 2x0 OK\r\n"]
    let outcome (x : Exchange) : Outcome Response :=
      (Executor.run Replay.engine (.standalone ()) .plain {} 5 ⟨{}, ⟨x, []⟩⟩).1
    LastCode (headerLines es) 503 ∧ LastCode (headerLines gs) 0 ∧
      outcome ⟨es, .error (.runtime "reset")⟩ = .rest ⟨503, "ab"⟩ ∧
      outcome ⟨fs, .ok ()⟩ = .rest ⟨503, "ab"⟩ ∧ outcome ⟨gs, .ok ()⟩ = .fatal .noStatus := by
  intro es fs gs outcome
  have hes : LastCode (headerLines es) 503 :=
    (lastCode_iff (t := ⟨headerLines es, []⟩)).2 (by decide +kernel)
  have hgs : LastCode (headerLines gs) 0 :=
    (lastCode_iff (t := ⟨headerLines gs, []⟩)).2 (by decide +kernel)
  have hbody : Utf8.lossy (octets es) = "ab" := by decide +kernel
  obtain ⟨code, hcode, -, -, -, hrest, hsame⟩ := outcome_follows_last_code Replay.engine
    (.standalone ()) {} 5 ⟨{}, ⟨⟨es, .error (.runtime "reset")⟩, []⟩⟩
  obtain rfl : 503 = code := (hcode 503).1 hes
  have hbroken : outcome ⟨es, .error (.runtime "reset")⟩ = .rest ⟨503, "ab"⟩ :=
    hbody ▸ hrest (.inr (by decide)) (by decide) (by decide)
  have hother := hsame Unit Replay Replay.engine (.standalone ()) {} 5
    ⟨{}, ⟨⟨fs, .ok ()⟩, []⟩⟩ rfl rfl (.inr (by decide))
  obtain ⟨other, hzero, -, hnone, -⟩ := outcome_follows_last_code Replay.engine
    (.standalone ()) {} 5 ⟨{}, ⟨⟨gs, .ok ()⟩, []⟩⟩
  exact ⟨hes, hgs, hbroken, hother.trans hbroken, hnone rfl ((hzero 0).1 hgs).symm⟩

end AppBackend
