import AppBackend.Transfer.Download

/-!
# Streamed bodies

A download beside a transcript that keeps everything. The transcript asks for the last status line
whenever it is read; the download asks once, at the first chunk that comes after a status line with
a code, and sends that chunk and all later ones the same way. Main statement:
`download_agrees_with_transcript`, the two give the same reply, its body cut in two at that chunk.
-/

namespace AppBackend

/-- The status of the last status line among events. -/
def statusAfter (es : List Event) : Nat := (es.foldl Transcript.accept {}).status

/-- A chunk among events that is the first to come with a status. -/
structure FirstKnown (es before : List Event) (bytes : Bytes) (after : List Event) : Prop where
  split : es = before ++ .chunk bytes :: after
  known : statusAfter before ≠ 0
  first : ∀ p other q, before = p ++ .chunk other :: q → statusAfter p = 0

namespace Download

/-! ### One event, then all -/

/-- How a download stands after events, none of them refused. -/
structure Follows (d : Download) (es : List Event) : Prop where
  lines : d.transcript.lines = headerLines es
  body : d.transcript.body ++ d.destination.content = octets es
  written : d.written = d.destination.content.length
  buffered : d.status ≠ 200 → d.destination.content = []

theorem follows_begin {destination : Destination} (h : destination.content = [])
    (room : Option Nat) : ((begin destination).within room).Follows [] where
  lines := rfl
  body := h
  written := by rw [within, begin, h]; rfl
  buffered := fun _ => h

theorem currentStatus_of_ne {d : Download} (h : d.status ≠ 0) : d.currentStatus = d.status :=
  if_neg h

/-- A chunk goes to the file when the status that counts is 200, and else to the transcript. -/
theorem accept_chunk {d d' : Download} {bytes : Bytes}
    (h : d.accept (.chunk bytes) = (d', true)) :
    d'.status = d.currentStatus ∧
      ((d.currentStatus = 200 ∧ d'.transcript = d.transcript ∧
          d'.destination.content = d.destination.content ++ bytes) ∨
        (d.currentStatus ≠ 200 ∧ d'.transcript = d.transcript.accept (.chunk bytes) ∧
          d'.destination = d.destination)) := by
  simp only [accept] at h
  split at h
  · rename_i hstatus
    split at h
    · rename_i destination hd
      rw [← (Prod.mk.inj h).1]
      exact ⟨rfl, Or.inl ⟨hstatus, rfl, Destination.content_append hd⟩⟩
    · simp at h
  · rename_i hstatus
    rw [← (Prod.mk.inj h).1]
    exact ⟨rfl, Or.inr ⟨hstatus, rfl, rfl⟩⟩

theorem accept_refused {d d' : Download} {e : Event} (h : d.accept e = (d', false)) :
    d'.written = d.written ∧ d'.transcript = d.transcript := by
  cases e with
  | header line => simp [accept] at h
  | chunk bytes =>
    simp only [accept] at h
    split at h
    · split at h
      · simp at h
      · rw [← (Prod.mk.inj h).1]
        exact ⟨rfl, rfl⟩
    · simp at h

theorem Follows.accept {d d' : Download} {es : List Event} {e : Event} (h : d.Follows es)
    (he : d.accept e = (d', true)) : d'.Follows (es ++ [e]) := by
  have hwritten := written_accept h.written he
  cases e with
  | header line =>
    rw [← (Prod.mk.inj he).1]
    refine ⟨?_, ?_, h.written, h.buffered⟩
    · rw [headerLines_append, ← h.lines]
      rfl
    · rw [octets_append, ← h.body]
      exact (List.append_nil _).symm
  | chunk bytes =>
    have hlines : headerLines (es ++ [.chunk bytes]) = headerLines es := by
      rw [headerLines_append]
      exact List.append_nil _
    have hoctets : octets (es ++ [.chunk bytes]) = octets es ++ bytes := by
      rw [octets_append]
      simp [octets, Event.octets]
    obtain ⟨hstatus, ⟨h200, ht, hd⟩ | ⟨hne, ht, hd⟩⟩ := accept_chunk he
    · refine ⟨?_, ?_, hwritten, fun hn => absurd (hstatus.trans h200) hn⟩
      · rw [ht, hlines, h.lines]
      · rw [ht, hd, hoctets, ← h.body, List.append_assoc]
    · have hempty : d.destination.content = [] := by
        apply h.buffered
        intro hs
        apply hne
        rw [currentStatus_of_ne (by rw [hs]; decide), hs]
      refine ⟨?_, ?_, hwritten, fun _ => by rw [hd, hempty]⟩
      · rw [ht, hlines, ← h.lines]
        rfl
      · have hbody : d.transcript.body = octets es := by
          rw [← h.body, hempty, List.append_nil]
        rw [ht, hd, hempty, hoctets, List.append_nil, ← hbody]
        rfl

theorem acceptAll_cons {d d' : Download} {e : Event} {es : List Event}
    (h : d.acceptAll (e :: es) = (d', true)) :
    ∃ next, d.accept e = (next, true) ∧ next.acceptAll es = (d', true) := by
  rw [acceptAll] at h
  split at h
  · rename_i next he
    exact ⟨next, he, h⟩
  · simp at h

theorem acceptAll_append {d d' : Download} {es fs : List Event}
    (h : d.acceptAll (es ++ fs) = (d', true)) :
    ∃ next, d.acceptAll es = (next, true) ∧ next.acceptAll fs = (d', true) := by
  induction es generalizing d with
  | nil => exact ⟨d, rfl, h⟩
  | cons e es ih =>
    obtain ⟨d₁, he, hrest⟩ := acceptAll_cons h
    obtain ⟨d₂, hes, hfs⟩ := ih hrest
    refine ⟨d₂, ?_, hfs⟩
    rw [acceptAll, he]
    exact hes

theorem Follows.acceptAll {d d' : Download} {es fs : List Event} (h : d.Follows es)
    (hfs : d.acceptAll fs = (d', true)) : d'.Follows (es ++ fs) := by
  induction fs generalizing d es with
  | nil =>
    rw [← (Prod.mk.inj hfs).1, List.append_nil]
    exact h
  | cons e fs ih =>
    obtain ⟨next, he, hrest⟩ := acceptAll_cons hfs
    have hnext := ih (h.accept he) hrest
    rwa [List.append_assoc] at hnext

/-! ### Before a status is known, and after -/

/-- Without a status that counts, every chunk stays with the header lines. -/
theorem acceptAll_of_unknown {d d' : Download} {es : List Event} (hd : d.status = 0)
    (hes : ∀ p bytes q, es = p ++ .chunk bytes :: q →
      (p.foldl Transcript.accept d.transcript).status = 0)
    (h : d.acceptAll es = (d', true)) :
    d'.status = 0 ∧ d'.transcript = es.foldl Transcript.accept d.transcript ∧
      d'.destination = d.destination := by
  induction es generalizing d with
  | nil =>
    rw [← (Prod.mk.inj h).1]
    exact ⟨hd, rfl, rfl⟩
  | cons e es ih =>
    obtain ⟨next, he, hrest⟩ := acceptAll_cons h
    have hnext : next.status = 0 ∧ next.transcript = d.transcript.accept e ∧
        next.destination = d.destination := by
      cases e with
      | header line =>
        rw [← (Prod.mk.inj he).1]
        exact ⟨hd, rfl, rfl⟩
      | chunk bytes =>
        have hzero : d.currentStatus = 0 := by
          rw [currentStatus, if_pos hd]
          exact hes [] bytes es rfl
        obtain ⟨hstatus, ⟨h200, -⟩ | ⟨-, ht, hdest⟩⟩ := accept_chunk he
        · rw [hzero] at h200
          exact absurd h200 (by decide)
        · exact ⟨hstatus.trans hzero, ht, hdest⟩
    obtain ⟨hs, ht, hdest⟩ := hnext
    have htail : ∀ p bytes q, es = p ++ .chunk bytes :: q →
        (p.foldl Transcript.accept next.transcript).status = 0 := by
      intro p bytes q hpq
      rw [ht]
      exact hes (e :: p) bytes q (by rw [hpq]; rfl)
    obtain ⟨hs', ht', hdest'⟩ := ih hs htail hrest
    exact ⟨hs', by rw [ht', ht]; rfl, hdest'.trans hdest⟩

/-- Once a status is fixed, all chunks go one way, whatever lines come between them. -/
theorem acceptAll_of_known {d d' : Download} {es : List Event} (hd : d.status ≠ 0)
    (h : d.acceptAll es = (d', true)) :
    d'.transcript.body = d.transcript.body ++ (if d.status = 200 then [] else octets es) ∧
      d'.destination.content
        = d.destination.content ++ (if d.status = 200 then octets es else []) := by
  induction es generalizing d with
  | nil =>
    rw [← (Prod.mk.inj h).1]
    simp [octets]
  | cons e es ih =>
    obtain ⟨next, he, hrest⟩ := acceptAll_cons h
    cases e with
    | header line =>
      rw [← (Prod.mk.inj he).1] at hrest
      have hnext := ih (by exact hd) hrest
      exact hnext
    | chunk bytes =>
      obtain ⟨hstatus, hway⟩ := accept_chunk he
      rw [currentStatus_of_ne hd] at hstatus hway
      obtain ⟨hbody, hcontent⟩ := ih (by rw [hstatus]; exact hd) hrest
      rw [hstatus] at hbody hcontent
      rw [hbody, hcontent, octets_chunk]
      rcases hway with ⟨h200, ht, hdest⟩ | ⟨hne, ht, hdest⟩
      · rw [ht, hdest]
        simp [h200]
      · rw [ht, hdest]
        simp [hne, Transcript.accept]

/-- The chunk that is the first to come with a status fixes the way of all that follow. -/
theorem body_of_firstKnown {destination : Destination} (hempty : destination.content = [])
    {room : Option Nat} {es before after : List Event} {bytes : Bytes} {d : Download}
    (h : ((begin destination).within room).acceptAll es = (d, true))
    (hk : FirstKnown es before bytes after) :
    d.response.body
        = octets before ++ (if statusAfter before = 200 then [] else bytes ++ octets after) ∧
      d.destination.content
        = if statusAfter before = 200 then bytes ++ octets after else [] := by
  rw [hk.split] at h
  obtain ⟨d₁, hbefore, hrest⟩ := acceptAll_append h
  obtain ⟨d₂, hchunk, hafter⟩ := acceptAll_cons hrest
  obtain ⟨hs₁, ht₁, hd₁⟩ := acceptAll_of_unknown rfl hk.first hbefore
  have hc : d₁.currentStatus = statusAfter before := by
    rw [currentStatus, if_pos hs₁, ht₁]
    rfl
  have hbody₁ : d₁.transcript.body = octets before := by
    rw [ht₁, Transcript.foldl_accept]
    rfl
  have hcontent₁ : d₁.destination.content = [] := by rw [hd₁]; exact hempty
  obtain ⟨hs₂, hway⟩ := accept_chunk hchunk
  rw [hc] at hs₂ hway
  obtain ⟨hbody, hcontent⟩ := acceptAll_of_known (by rw [hs₂]; exact hk.known) hafter
  rw [hs₂] at hbody hcontent
  rw [response, Transcript.response_body, hbody, hcontent]
  rcases hway with ⟨h200, ht, hd⟩ | ⟨hne, ht, hd⟩
  · rw [ht, hd, hbody₁, hcontent₁]
    simp [h200]
  · rw [ht, hd, hcontent₁]
    simp [hne, Transcript.accept, hbody₁]

theorem unknown_of_not_firstKnown {es : List Event}
    (h : ∀ before bytes after, ¬ FirstKnown es before bytes after) {p q : List Event}
    {bytes : Bytes} (hp : es = p ++ .chunk bytes :: q) : statusAfter p = 0 := by
  induction hn : p.length using Nat.strongRecOn generalizing p q bytes with
  | ind n ih =>
    subst hn
    by_cases hknown : statusAfter p = 0
    · exact hknown
    refine absurd ⟨hp, hknown, ?_⟩ (h p bytes q)
    intro p' other q' hp'
    have hsplit : es = p' ++ .chunk other :: (q' ++ .chunk bytes :: q) := by
      rw [hp, hp', List.append_assoc]
      rfl
    have hlt : p'.length < p.length := by
      rw [hp', List.length_append, List.length_cons]
      omega
    exact ih p'.length hlt hsplit rfl

/-! ### Both together -/

/-- When no chunk is refused, a download into an empty destination and a transcript of the same
events give the same reply, but for a body that the download divides: it keeps the chunks before the
first that comes with a status, and that chunk and all after it too unless that status is 200, for
then these are in the file. A refused chunk changes neither the count nor the reply. -/
theorem download_agrees_with_transcript {destination : Destination}
    (hempty : destination.content = []) (room : Option Nat) :
    (∀ es d, ((begin destination).within room).acceptAll es = (d, true) →
      let r := (es.foldl Transcript.accept {}).response
      (d.response.status = r.status ∧ d.response.reason = r.reason ∧
        d.response.headers = r.headers ∧ d.response.body ++ d.destination.content = r.body) ∧
      d.written = d.destination.content.length ∧
      (∀ before bytes after, FirstKnown es before bytes after →
        d.response.body
            = octets before ++ (if statusAfter before = 200 then [] else bytes ++ octets after) ∧
          d.destination.content
            = if statusAfter before = 200 then bytes ++ octets after else []) ∧
      ((∀ before bytes after, ¬ FirstKnown es before bytes after) →
        d.response.body = octets es ∧ d.destination.content = [])) ∧
    ∀ d d' bytes, Download.accept d (.chunk bytes) = (d', false) →
      d'.written = d.written ∧ d'.response = d.response := by
  constructor
  · intro es d h r
    have hf := (follows_begin hempty room).acceptAll h
    rw [List.nil_append] at hf
    have hr : r = (⟨headerLines es, octets es⟩ : Transcript).response := by
      rw [show r = (es.foldl Transcript.accept {}).response from rfl, Transcript.foldl_accept]
      rfl
    refine ⟨?_, hf.written, fun before bytes after => body_of_firstKnown hempty h, ?_⟩
    · have hsame : d.response = { r with body := d.transcript.body } := by
        rw [hr, ← Transcript.response_of_lines, ← hf.lines]
        rfl
      have hbody : r.body = octets es := by rw [hr, Transcript.response_body]
      rw [hsame, hbody]
      exact ⟨rfl, rfl, rfl, hf.body⟩
    · intro hnone
      have hes : ∀ p bytes q, es = p ++ .chunk bytes :: q → statusAfter p = 0 :=
        fun p bytes q hp => unknown_of_not_firstKnown hnone hp
      obtain ⟨-, ht, hd⟩ := acceptAll_of_unknown rfl hes h
      refine ⟨?_, by rw [hd]; exact hempty⟩
      rw [response, Transcript.response_body, ht, Transcript.foldl_accept]
      rfl
  · intro d d' bytes h
    obtain ⟨hwritten, ht⟩ := accept_refused h
    exact ⟨hwritten, by rw [response, ht]; rfl⟩

/-- A chunk comes before any status, one with 200, and one after a status line with 404; there is
room for three octets, and then for no more. -/
theorem download_agrees_with_transcript_of_room :
    let before : List Event := [.chunk [1], .header "HTTP/1.1 200 OK\r\n"]
    let after : List Event := [.header "HTTP/1.1 404 Not Found\r\n", .chunk [4]]
    let d := (((begin (.file [])).within (some 3)).acceptAll (before ++ .chunk [2, 3] :: after)).1
    d.response.status = 404 ∧ d.response.body = [1] ∧ d.destination.content = [2, 3, 4] ∧
      d.written = 3 ∧ (d.accept (.chunk [5])).1.written = 3 := by
  intro before after d
  have hall : ((begin (.file [])).within (some 3)).acceptAll (before ++ .chunk [2, 3] :: after)
      = (d, true) := by decide +kernel
  have hfirst : FirstKnown (before ++ .chunk [2, 3] :: after) before [2, 3] after := by
    refine ⟨rfl, by decide +kernel, ?_⟩
    intro p other q hp
    cases p with
    | nil => decide +kernel
    | cons e p =>
      have hrest : [Event.header "HTTP/1.1 200 OK\r\n"] = p ++ .chunk other :: q :=
        (List.cons.inj hp).2
      cases p with
      | nil => simp at hrest
      | cons e p => simp at hrest
  have hrefused : d.accept (.chunk [5]) = ((d.accept (.chunk [5])).1, false) := by decide +kernel
  have hempty : (Destination.file []).content = [] := rfl
  obtain ⟨hagrees, hrefuses⟩ := download_agrees_with_transcript hempty (some 3)
  obtain ⟨⟨hstatus, -, -, -⟩, hwritten, hroute, -⟩ := hagrees _ d hall
  obtain ⟨hbody, hcontent⟩ := hroute before [2, 3] after hfirst
  have h200 : statusAfter before = 200 := by decide +kernel
  rw [if_pos h200] at hbody hcontent
  have hthree : d.written = 3 := by
    rw [hwritten, hcontent]
    rfl
  refine ⟨?_, hbody, hcontent, hthree, ?_⟩
  · rw [hstatus, Transcript.response_status]
    decide +kernel
  · rw [(hrefuses d _ [5] hrefused).1, hthree]

end Download
end AppBackend
