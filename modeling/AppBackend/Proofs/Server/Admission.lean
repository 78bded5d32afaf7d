import AppBackend.Proofs.Server.Paths

/-!
# Requests that are let in

What it takes for a request of a client to be let in by the server. A draft is admitted when it
leads to the server, fits into a target, names the application, and names no session but a live one.
Main statements: `callOf?_of_admitted` and `gate_of_admitted`, the call of an admitted draft is let
in; and `answer_of_perform`, such a call is answered by its route.
-/

namespace AppBackend

/-! ### Header lines -/

/-- A value that can be sent in a header and reads back as it is. -/
structure Sendable (value : String) : Prop where
  valid : HeaderName.isValue value = true
  begins : (value.toList.head?.all fun c => !Text.isBlank c) = true

instance (value : String) : Decidable (Sendable value) :=
  decidable_of_iff (HeaderName.isValue value = true ∧
    (value.toList.head?.all fun c => !Text.isBlank c) = true)
    ⟨fun ⟨hv, hb⟩ => ⟨hv, hb⟩, fun ⟨hv, hb⟩ => ⟨hv, hb⟩⟩

theorem Sendable.not_blank {value : String} (h : Sendable value) {c : Char}
    (hc : value.toList.head? = some c) : Text.isBlank c = false := by
  have hb := h.begins
  rw [hc] at hb
  simpa using hb

/-- Of the printable characters of ASCII only the space is blank. -/
theorem isBlank_of_printable {c : Char} (hlow : 32 ≤ c.toNat) (hhigh : c.toNat < 127)
    (hne : c ≠ ' ') : Text.isBlank c = false := by
  have hspace : c.toNat ≠ 32 := fun h => hne (Char.toNat_inj.1 h)
  unfold Text.isBlank
  dsimp only
  simp only [Bool.or_eq_false_iff, Bool.and_eq_false_iff, decide_eq_false_iff_not,
    beq_eq_false_iff_ne]
  omega

theorem sendable_of_printable {value : String}
    (h : ∀ c ∈ value.toList, 32 ≤ c.toNat ∧ c.toNat < 127)
    (hbegins : value.toList.head? ≠ some ' ') : Sendable value where
  valid := by
    rw [HeaderName.isValue, List.all_eq_true]
    intro c hc
    obtain ⟨hlow, hhigh⟩ := h c hc
    have hvalid : (decide (32 ≤ c.toNat) && c.toNat != 127) = true := by
      rw [Bool.and_eq_true, decide_eq_true_eq, bne_iff_ne]
      omega
    rw [hvalid, Bool.true_or]
  begins := by
    cases hlist : value.toList with
    | nil => rfl
    | cons c cs =>
      rw [hlist] at h hbegins
      obtain ⟨hlow, hhigh⟩ := h c (List.mem_cons_self ..)
      have hne : c ≠ ' ' := by
        rintro rfl
        exact hbegins rfl
      simp [isBlank_of_printable hlow hhigh hne]

theorem isBlank_of_isDigit {c : Char} (h : Numeral.isDigit c = true) : Text.isBlank c = false := by
  obtain ⟨hlow, hhigh⟩ := Numeral.toNat_of_isDigit h
  refine isBlank_of_printable (by omega) (by omega) ?_
  rintro rfl
  exact absurd h (by decide)

theorem sendable_write (n : Nat) : Sendable (String.ofList (Numeral.write n)) := by
  refine sendable_of_printable (fun c hc => ?_) fun hspace => ?_
  · rw [String.toList_ofList] at hc
    obtain ⟨hlow, hhigh⟩ := Numeral.toNat_of_isDigit (Numeral.isDigit_of_mem_write hc)
    omega
  · rw [String.toList_ofList] at hspace
    have hdigit := Numeral.isDigit_of_mem_write (List.mem_of_head? hspace)
    exact absurd hdigit (by decide)

theorem HeaderName.not_mem_of_isName {name : String} (h : isName name = true) :
    ':' ∉ name.toList := by
  simp only [isName, Bool.and_eq_true] at h
  intro hm
  exact absurd (List.all_eq_true.1 h.2 ':' hm) (by decide)

theorem Request.headerPairs_map {ps : Pairs}
    (h : ∀ p ∈ ps, HeaderName.isName p.1 = true ∧ Sendable p.2) :
    (ps.map fun p => headerLine p.1 p.2).filterMap headerPair? = ps :=
  filterMap_headerPair? fun p hp =>
    ⟨HeaderName.not_mem_of_isName (h p hp).1, fun _ => (h p hp).2.not_blank⟩

theorem Pairs.header?_append_of_ne {ps : Pairs} {name : String}
    (h : ∀ p ∈ ps, Text.sameName p.1 name = false) (qs : Pairs) :
    (ps ++ qs).header? name = qs.header? name := by
  rw [Pairs.header?, List.find?_append, List.find?_eq_none.2 fun p hp => by
    rw [h p hp]
    exact Bool.false_ne_true]
  rfl

theorem Pairs.header?_cons_self (name value : String) (ps : Pairs) :
    Pairs.header? ((name, value) :: ps) name = some value := by
  have hself : Text.sameName name name = true := Text.sameName_refl name
  simp [Pairs.header?, hself]

namespace Server

theorem callOf?_of_sendable {r : Request} {ps : Pairs} {target : Target}
    (htarget : Target.ofText? r.url = some target)
    (hlines : r.headers = ps.map fun p => Request.headerLine p.1 p.2)
    (h : ∀ p ∈ ps, HeaderName.isName p.1 = true ∧ Sendable p.2) (timeout : Nat)
    (upload : Option Upload) :
    Backend.callOf? ⟨r, timeout, upload⟩ = some ⟨r.method.name, target.path,
      target.query.getD "", ps, (upload.map (·.content)).getD r.body⟩ := by
  have hpairs : r.headerPairs = ps := by
    rw [Request.headerPairs, hlines]
    exact Request.headerPairs_map h
  have hvalid : (ps.all fun p => HeaderName.isName p.1 && HeaderName.isValue p.2) = true := by
    rw [List.all_eq_true]
    intro p hp
    rw [(h p hp).1, (h p hp).2.valid]
    rfl
  rw [Backend.callOf?, htarget]
  dsimp only [bind, Option.bind]
  rw [hpairs, if_pos hvalid]

end Server

/-! ### Admitted drafts -/

namespace Draft

/-- What a draft says of its sender: the application, the session if there is one, and the agent. -/
def sender (token : String) : Pairs :=
  [(HeaderName.appId, Server.appId), (HeaderName.appKey, Server.appKey)]
    ++ (if token = "" then [] else [(HeaderName.sessionToken, token)])
    ++ [(HeaderName.userAgent, defaultUserAgent)]

/-- A draft that the server lets in at a moment. -/
structure Admitted (d : Draft) (s : Server.Store) (now : Int) : Prop where
  atServer : d.credentials.AtServer
  target : (Target.ofText? d.url).isSome = true
  appId : d.credentials.appId = Server.appId
  appKey : d.credentials.appKey = Server.appKey
  session : d.sessionToken = "" ∨
    Sendable d.sessionToken ∧ s.isLive now d.sessionToken = true

/-- A draft as an operation makes it: with its session, and with no headers but a content type. -/
structure Usual (d : Draft) : Prop where
  withSession : d.withSession = true
  names : ∀ p ∈ d.headers, p.1 = HeaderName.contentType
  values : ∀ p ∈ d.headers, p.2 ≠ "" ∧ Sendable p.2

variable {d : Draft} {s : Server.Store} {now : Int}

theorem lastAgent_eq_self {ps : Pairs} (h : ∀ p ∈ ps, isAgent p = false) : lastAgent ps = ps := by
  induction ps with
  | nil => rfl
  | cons p ps ih =>
    rw [lastAgent, h p (List.mem_cons_self ..), Bool.false_and,
      ih fun q hq => h q (List.mem_cons_of_mem _ hq)]
    rfl

theorem headerPairs_of_usual (h : d.Usual) (hid : d.credentials.appId = Server.appId)
    (hkey : d.credentials.appKey = Server.appKey) :
    d.headerPairs = d.headers ++ sender d.sessionToken := by
  have hagent : ∀ p ∈ d.headers, isAgent p = false := by
    intro p hp
    rw [isAgent, h.names p hp]
    decide
  have hnames : namesAgent d.headers = false := by
    rw [namesAgent, List.any_eq_false]
    intro p hp
    rw [hagent p hp]
    exact Bool.false_ne_true
  have hfull : d.headers.filter isFull = d.headers := by
    rw [List.filter_eq_self]
    intro p hp
    have hname : (p.1 != "") = true := by
      rw [h.names p hp]
      decide
    rw [isFull, hname, Bool.true_and, bne_iff_ne]
    exact (h.values p hp).1
  have hsender : ([(HeaderName.appId, Server.appId), (HeaderName.appKey, Server.appKey)]
      ++ [(HeaderName.sessionToken, d.sessionToken)]
      ++ [(HeaderName.userAgent, defaultUserAgent)]).filter isFull = sender d.sessionToken := by
    by_cases ht : d.sessionToken = ""
    · rw [ht]
      decide
    · have hsession : isFull (HeaderName.sessionToken, d.sessionToken) = true := by
        simp [isFull, HeaderName.sessionToken, ht]
      rw [sender, if_neg ht, List.filter_append, List.filter_append,
        List.filter_cons_of_pos hsession]
      rfl
  rw [headerPairs, h.withSession, hid, hkey]
  simp only [if_true, hnames, Bool.false_eq_true, if_false, lastAgent_eq_self hagent]
  rw [List.append_assoc, List.append_assoc, List.filter_append, hfull, ← List.append_assoc, hsender]

theorem sendable_sender (h : d.Admitted s now) :
    ∀ p ∈ sender d.sessionToken, HeaderName.isName p.1 = true ∧ Sendable p.2 := by
  intro p hp
  simp only [sender, List.mem_append, List.mem_cons, List.not_mem_nil, or_false] at hp
  rcases hp with ((rfl | rfl) | hp) | rfl
  · decide
  · decide
  · split at hp
    · cases hp
    · rename_i hne
      rw [List.mem_singleton.1 hp]
      exact ⟨(by decide : HeaderName.isName HeaderName.sessionToken = true),
        (h.session.resolve_left hne).1⟩
  · decide

theorem name_of_mem_sender {token : String} {p : String × String}
    (h : p ∈ sender token) :
    p.1 ∈ [HeaderName.appId, HeaderName.appKey, HeaderName.sessionToken, HeaderName.userAgent] := by
  simp only [sender, List.mem_append, List.mem_cons, List.not_mem_nil, or_false] at h
  rcases h with ((rfl | rfl) | h) | rfl
  · simp
  · simp
  · split at h
    · cases h
    · rw [List.mem_singleton.1 h]
      simp
  · simp

theorem missing?_of_admitted (h : d.Admitted s now) : d.missing? = none := by
  have hendpoint : d.credentials.endpoint ≠ "" := by
    intro he
    have hroot := h.atServer.root
    rw [he] at hroot
    cases hroot
  rw [missing?, Credentials.missing?, if_neg hendpoint, h.atServer.tenant, h.appId, h.appKey]
  decide

end Draft

namespace Server

section
variable {d : Draft} {s : Store} {now : Int}

/-- The call of an admitted draft, whatever is sent for its body and whatever headers are added. -/
theorem callOf?_of_admitted (h : d.Admitted s now) (hd : d.Usual) {extra : Pairs}
    (hextra : ∀ p ∈ extra, HeaderName.isName p.1 = true ∧ Sendable p.2) {r : Request}
    (hr : r = { d.build with
      headers := d.build.headers ++ extra.map fun p => Request.headerLine p.1 p.2 })
    (timeout : Nat) (upload : Option Upload) :
    ∃ c, Backend.callOf? ⟨r, timeout, upload⟩ = some c ∧ c.method = d.method.name ∧
      c.headers = d.headers ++ Draft.sender d.sessionToken ++ extra ∧
      c.body = (upload.map (·.content)).getD d.body := by
  obtain ⟨target, htarget⟩ := Option.isSome_iff_exists.1 h.target
  have hpairs := Draft.headerPairs_of_usual hd h.appId h.appKey
  have hlines : r.headers = (d.headers ++ Draft.sender d.sessionToken ++ extra).map
      fun p => Request.headerLine p.1 p.2 := by
    rw [hr, List.map_append, ← hpairs]
    rfl
  have hall : ∀ p ∈ d.headers ++ Draft.sender d.sessionToken ++ extra,
      HeaderName.isName p.1 = true ∧ Sendable p.2 := by
    intro p hp
    rcases List.mem_append.1 hp with hp | hp
    · rcases List.mem_append.1 hp with hp | hp
      · refine ⟨?_, (hd.values p hp).2⟩
        rw [hd.names p hp]
        decide
      · exact Draft.sendable_sender h p hp
    · exact hextra p hp
  have htext : Target.ofText? r.url = some target := by
    rw [hr]
    exact htarget
  refine ⟨_, callOf?_of_sendable htext hlines hall timeout upload, ?_, rfl, ?_⟩
  · rw [hr]
    rfl
  · rw [hr]
    rfl

/-- The call of an admitted draft is let in. -/
theorem gate_of_admitted (h : d.Admitted s now) (hd : d.Usual) {extra : Pairs}
    (hextra : ∀ p ∈ extra, p.1 = HeaderName.contentLength) {c : Call}
    (hc : c.headers = d.headers ++ Draft.sender d.sessionToken ++ extra) :
    gate s now c = .ok () := by
  have hskip (name : String) (hname : Text.sameName HeaderName.contentType name = false) :
      c.headers.header? name = (Draft.sender d.sessionToken ++ extra).header? name := by
    rw [hc, List.append_assoc]
    refine Pairs.header?_append_of_ne (fun p hp => ?_) _
    rw [hd.names p hp]
    exact hname
  have hid : c.header? HeaderName.appId = some appId := by
    rw [Call.header?, hskip _ (by decide)]
    rfl
  have hkey : c.header? HeaderName.appKey = some appKey := by
    rw [Call.header?, hskip _ (by decide)]
    rfl
  have hboth : ¬ (c.header? HeaderName.appId ≠ some appId ∨
      c.header? HeaderName.appKey ≠ some appKey) := by
    rw [hid, hkey]
    simp
  have htoken : c.headers.header? HeaderName.sessionToken
      = if d.sessionToken = "" then none else some d.sessionToken := by
    rw [hskip _ (by decide)]
    split
    · rename_i he
      have hsender : ∀ p ∈ Draft.sender "", Text.sameName p.1 HeaderName.sessionToken = false := by
        decide
      have hnone : ∀ p ∈ Draft.sender "" ++ extra,
          Text.sameName p.1 HeaderName.sessionToken = false := by
        intro p hp
        rcases List.mem_append.1 hp with hp | hp
        · exact hsender p hp
        · rw [hextra p hp]
          decide
      rw [he, ← List.append_nil (Draft.sender "" ++ extra), Pairs.header?_append_of_ne hnone]
      rfl
    · rename_i hne
      have hbefore : ∀ p ∈ [(HeaderName.appId, appId), (HeaderName.appKey, appKey)],
          Text.sameName p.1 HeaderName.sessionToken = false := by
        decide
      rw [Draft.sender, if_neg hne, List.append_assoc, List.append_assoc,
        Pairs.header?_append_of_ne hbefore]
      exact Pairs.header?_cons_self ..
  have hsession : c.header? HeaderName.sessionToken = none ∨
      c.header? HeaderName.sessionToken = some d.sessionToken ∧
        s.isLive now d.sessionToken = true := by
    rw [Call.header?, htoken]
    split
    · exact Or.inl rfl
    · rename_i hne
      cases hreadable : Call.isReadable d.sessionToken with
      | false =>
        refine Or.inl ?_
        rw [Option.filter_some, hreadable]
        rfl
      | true =>
        refine Or.inr ⟨?_, (h.session.resolve_left hne).2⟩
        rw [Option.filter_some, hreadable]
        rfl
  rw [gate, if_neg hboth]
  rcases hsession with hnone | ⟨hsome, hlive⟩
  · rw [hnone]
  · rw [hsome]
    exact if_pos hlive

end

/-! ### Answers -/

theorem Route.sent_of_takes {c : Call} {r : Route} (ht : r.takes c.method = true)
    (hhead : c.method ≠ "HEAD") (reply : Reply) : r.sent c reply = reply := by
  rw [sent, if_pos ht, if_neg hhead]

theorem answer_of_perform {s s' : Store} {f : Fresh} {c : Call} {r r' : Route} {reply : Reply}
    (hr : Route.ofPath? c.path = some r) (hd : r.decoded = .ok r')
    (hgate : gate s f.now.second c = .ok ()) (ht : r'.takes c.method = true)
    (hhead : c.method ≠ "HEAD") (hp : r'.perform s f c = .ok (reply, s')) :
    answer s f c = (reply, s') := by
  have htakes : r.takes c.method = true := by
    rw [Route.takes_of_decoded hd]
    exact ht
  have hanswer : r.answer s f c = .ok (reply, s') := by
    rw [Route.answer, hgate, hd, if_pos htakes]
    exact hp
  rw [answer, hr]
  dsimp only
  rw [hanswer]
  dsimp only
  rw [Route.sent_of_takes htakes hhead]

end Server
end AppBackend
