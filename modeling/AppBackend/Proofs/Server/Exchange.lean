import AppBackend.Client.User
import AppBackend.Proofs.Client.Operation
import AppBackend.Proofs.Transfer.Rendering
import AppBackend.Server.Backend

/-!
# Exchanges with the server

A request of a client that goes to the server: what the client gets is the reply of the one call
that its transfer makes. Main statement: `perform_of_request_success`, a request that
succeeds has done on the server what its route and its method say.
-/

namespace AppBackend

/-! ### Heads whose names are not those of status lines -/

namespace Head

theorem toTranscript_exchange (h : Head) (chunks : List Bytes)
    (ending : Except TransferError Unit) :
    (h.exchange chunks ending).toTranscript = ⟨h.lines, chunks.flatten⟩ := by
  rw [Exchange.toTranscript, Transcript.foldl_accept, headerLines_exchange, octets_exchange,
    List.nil_append, List.nil_append]

def Sendable (h : Head) : Prop :=
  100 ≤ h.status ∧ h.status ≤ 999 ∧ ∀ p ∈ h.headers, p.1.toList.head? ≠ some 'H'

theorem isPrefixOf_of_head {name : List Char} (h : name.head? ≠ some 'H') {b : List Char}
    (hb : b ∈ StatusLine.beginnings) : b.isPrefixOf name = false := by
  have hbegins : b.head? = some 'H' := by
    have hall : ∀ b ∈ StatusLine.beginnings, b.head? = some 'H' := by decide
    exact hall b hb
  rw [← Bool.not_eq_true, List.isPrefixOf_iff_prefix]
  rintro ⟨rest, rfl⟩
  rw [List.head?_append, hbegins] at h
  exact h rfl

theorem lastStatus?_lines {h : Head} (hs : h.Sendable) :
    Transcript.lastStatus? h.lines
      = some (h.statusLineAs (Numeral.write h.status),
        h.headers.map (fun p => Request.headerLine p.1 p.2 ++ lineEnd) ++ [lineEnd]) := by
  obtain ⟨hlow, hhigh, hnames⟩ := hs
  rw [lines_eq]
  exact lastStatus?_linesAs (spellsCode_write hlow hhigh) fun p hp b hb =>
    isPrefixOf_of_head (hnames p hp) hb

theorem status_lines {h : Head} (hs : h.Sendable) (body : Bytes) :
    (⟨h.lines, body⟩ : Transcript).status = h.status := by
  rw [Transcript.status, lastStatus?_lines hs]
  exact code_statusLineAs (spellsCode_write hs.1 hs.2.1)

theorem response_exchange {h : Head} (hs : h.Sendable) (chunks : List Bytes)
    (ending : Except TransferError Unit) :
    (h.exchange chunks ending).toTranscript.response.status = h.status ∧
      (h.exchange chunks ending).toTranscript.response.body = chunks.flatten := by
  rw [toTranscript_exchange, Transcript.response_status, Transcript.response_body]
  exact ⟨status_lines hs _, rfl⟩

end Head

/-! ### Replies -/

namespace Server

/-- A reply whose headers are among those that the server gives by itself. -/
def Reply.Sendable (r : Reply) : Prop := (Head.ofStatus r.status r.headers).Sendable

theorem Reply.sendable_json {status : Nat} (hlow : 100 ≤ status) (hhigh : status ≤ 999) (v : Json) :
    (Reply.json status v).Sendable := by
  refine ⟨hlow, hhigh, ?_⟩
  intro p hp
  rw [List.mem_singleton.1 hp]
  decide

theorem Reply.sendable_plain {status : Nat} (hlow : 100 ≤ status) (hhigh : status ≤ 999)
    (text : String) : (Reply.plain status text).Sendable := by
  refine ⟨hlow, hhigh, ?_⟩
  intro p hp
  rw [List.mem_singleton.1 hp]
  decide

theorem Refusal.sendable (r : Refusal) : r.reply.Sendable := by
  cases r <;> first
    | exact Reply.sendable_json (by decide) (by decide) _
    | exact Reply.sendable_plain (by decide) (by decide) _

theorem Reply.Sendable.withHeader {r : Reply} (h : r.Sendable) {name : String}
    (hn : name.toList.head? ≠ some 'H') (value : String) : (r.withHeader name value).Sendable := by
  refine ⟨h.1, h.2.1, ?_⟩
  intro p hp
  rcases List.mem_append.1 hp with hp | hp
  · exact h.2.2 p hp
  · rw [List.mem_singleton.1 hp]
    exact hn

theorem Route.status_sent (c : Call) (r : Route) (reply : Reply) :
    (r.sent c reply).status = reply.status := by
  unfold sent
  split <;> split <;> rfl

theorem Route.sendable_sent (c : Call) (r : Route) {reply : Reply} (h : reply.Sendable) :
    (r.sent c reply).Sendable := by
  have hallow : Reply.Sendable (if r.takes c.method then reply
      else reply.withHeader Reply.allow (",".intercalate (r.methods?.getD []))) := by
    split
    · exact h
    · exact h.withHeader (by decide) _
  unfold sent
  dsimp only
  split
  · exact hallow
  · exact hallow

/-! ### Requests -/

/-- A transfer whose body is kept with its reply. -/
theorem runPlain_eq (fresh : Nat → Fresh) (x : Executor Unit) {t : Transfer}
    (ht : t.isReadable = true) (s : Site Backend) :
    Executor.runPlain (Backend.engine fresh) x t s =
      match Backend.callOf? t with
      | none => (.fatal .transferMisused, x, s)
      | some call =>
        let a := s.backend.answer fresh call
        (classify (.ok ()) ((Head.ofStatus a.1.status a.1.headers).exchange [a.1.body]
          (.ok ())).toTranscript.response, x, { s with backend := a.2 }) := by
  simp only [Executor.runPlain, Executor.perform, Backend.perform_of_readable ht]
  cases Backend.callOf? t with
  | none => rfl
  | some call => rfl

theorem run_plain (fresh : Nat → Fresh) (x : Executor Unit) (r : Request) (timeout : Int)
    (s : Site Backend) :
    Executor.run (Backend.engine fresh) x .plain r timeout s =
      match Backend.callOf? ⟨r, effectiveTimeout timeout, none⟩ with
      | none => (.fatal .transferMisused, x, s)
      | some call =>
        let a := s.backend.answer fresh call
        (classify (.ok ()) ((Head.ofStatus a.1.status a.1.headers).exchange [a.1.body]
          (.ok ())).toTranscript.response, x, { s with backend := a.2 }) :=
  runPlain_eq fresh x (t := ⟨r, effectiveTimeout timeout, none⟩) rfl s

/-- The transfer that sends a file. -/
def uploadOf (r : Request) (content : Bytes) (timeout : Int) : Transfer :=
  ⟨Executor.withLength r content.length, effectiveTimeout timeout, some (.ofNode (.file content))⟩

theorem run_upload (fresh : Nat → Fresh) (x : Executor Unit) {r : Request} {path : String}
    {content : Bytes} {s : Site Backend} (hfile : s.disk.node? path = some (.file content))
    (hsends : r.method.sendsBody = true) (timeout : Int) :
    Executor.run (Backend.engine fresh) x (.upload path) r timeout s =
      match Backend.callOf? (uploadOf r content timeout) with
      | none => (.fatal .transferMisused, x, s)
      | some call =>
        let a := s.backend.answer fresh call
        (classify (.ok ()) ((Head.ofStatus a.1.status a.1.headers).exchange [a.1.body]
          (.ok ())).toTranscript.response, x, { s with backend := a.2 }) := by
  simp only [Executor.run, Executor.runUpload, hfile, hsends]
  exact runPlain_eq fresh x (t := uploadOf r content timeout) rfl s

/-- An upload that succeeds has sent a file. -/
theorem file_of_upload_success {fresh : Nat → Fresh} {x : Executor Unit} {r : Request}
    {path : String} {timeout : Int} {s : Site Backend} {response : Response}
    (h : (Executor.run (Backend.engine fresh) x (.upload path) r timeout s).1
      = .success response) :
    r.method.sendsBody = true ∧ ∃ content, s.disk.node? path = some (.file content) := by
  simp only [Executor.run, Executor.runUpload] at h
  split at h
  · cases h
  · cases h
  · rename_i node hnode hsends
    cases node with
    | file content => exact ⟨hsends, content, hnode⟩
    | folder =>
      rw [Executor.runPlain, Executor.perform, Backend.perform_of_unreadable rfl] at h
      cases h

theorem eq_of_classify_success {response r : Response}
    (h : classify (.ok ()) response = .success r) : r = response ∧ response.isSuccess = true := by
  unfold classify at h
  dsimp only at h
  split at h
  · simp at h
  split at h
  · rename_i hs
    exact ⟨(Outcome.success.inj h).symm, hs⟩
  · simp at h

/-- A request that succeeds has made a call, and what it got is the reply. -/
theorem call_of_request_success {fresh : Nat → Fresh} {c : Client Unit Backend} {now : Int}
    {steps : List Draft.Step} {timeout : Int} {r : Response}
    (h : (c.request (Backend.engine fresh) now steps .plain timeout).1 = .success r) :
    (c.service.draft now).missing? = none ∧
    ∃ call, Backend.callOf? ⟨((c.service.draft now).applyAll steps).build, 0, none⟩ = some call ∧
      let a := c.site.backend.answer fresh call
      r = ((Head.ofStatus a.1.status a.1.headers).exchange [a.1.body]
        (.ok ())).toTranscript.response ∧
      r.isSuccess = true ∧
      (c.request (Backend.engine fresh) now steps .plain timeout).2.site.backend = a.2 := by
  obtain ⟨f, hf⟩ | ⟨hcomplete, x, seconds, houtcome, hsite⟩ :=
    Client.request_cases (Backend.engine fresh) now steps .plain timeout c
  · rw [hf] at h
    cases h
  refine ⟨hcomplete, ?_⟩
  rw [run_plain] at houtcome hsite
  generalize hcall : Backend.callOf? ⟨((c.service.draft now).applyAll steps).build, _, none⟩
    = call? at houtcome hsite
  rw [houtcome] at h
  cases call? with
  | none => cases h
  | some call =>
    dsimp only at h
    obtain ⟨hr, hsuccess⟩ := eq_of_classify_success h
    exact ⟨call, hcall, hr, hr ▸ hsuccess, congrArg Site.backend hsite⟩

/-! ### Handling a call -/

theorem exists_of_bind_eq_ok {α β : Type} {x : Except Refusal α} {f : α → Except Refusal β} {b : β}
    (h : (x >>= f) = .ok b) : ∃ a, x = .ok a ∧ f a = .ok b := by
  cases x with
  | error refusal => cases h
  | ok a => exact ⟨a, rfl, h⟩

theorem exists_of_map_eq_ok {α β : Type} {x : Except Refusal α} {f : α → β} {b : β}
    (h : x.map f = .ok b) : ∃ a, x = .ok a ∧ f a = b := by
  cases x with
  | error refusal => cases h
  | ok a => exact ⟨a, rfl, Except.ok.inj h⟩

theorem eq_ok_of_toOption {α : Type} {x : Except Refusal α} {a : α} (h : x.toOption = some a) :
    x = .ok a := by
  cases x with
  | error refusal => cases h
  | ok b => rw [Option.some.inj h]

theorem Call.ofBytes?_of_object {c : Call} {fs : Json.Fields} (h : c.object = .ok fs) :
    Json.ofBytes? c.body = some (.obj fs) := by
  obtain ⟨v, hjson, hv⟩ := exists_of_bind_eq_ok h
  obtain ⟨units, hunits, hread⟩ := exists_of_bind_eq_ok hjson
  have hdecode : units = Utf8.decode c.body := by
    unfold jsonUnits at hunits
    dsimp only at hunits
    split at hunits
    · cases hunits
    obtain ⟨content, hcontent, hunits⟩ := exists_of_bind_eq_ok hunits
    have hbody : content = c.body := by
      unfold Call.content at hcontent
      split at hcontent
      · cases hcontent
      · exact (Except.ok.inj hcontent).symm
    rw [← hbody]
    exact (Except.ok.inj hunits).symm
  have hparse : Json.ofUnits? units = some v := by
    split at hread
    · rename_i w hw
      rw [hw, Except.ok.inj hread]
    · cases hread
  have hobj : v = .obj fs := by
    split at hv
    · rename_i gs
      rw [Except.ok.inj hv]
    · cases hv
  rw [Json.ofBytes?, ← hdecode, hparse, hobj]

/-- A call on a known path is answered by its route, or refused and nothing changes. -/
theorem answer_cases {s : Store} {f : Fresh} {c : Call} {r : Route}
    (h : Route.ofPath? c.path = some r) :
    (∃ reply s', r.answer s f c = .ok (reply, s') ∧ answer s f c = (r.sent c reply, s')) ∨
      ∃ refusal, r.answer s f c = .error refusal ∧ answer s f c = (r.sent c refusal.reply, s) := by
  cases ha : r.answer s f c with
  | ok a => exact Or.inl ⟨a.1, a.2, rfl, by simp [answer, h, ha]⟩
  | error refusal => exact Or.inr ⟨refusal, rfl, by simp [answer, h, ha]⟩

theorem Route.takes_of_decoded {r r' : Route} (h : r.decoded = .ok r') : r.takes = r'.takes := by
  cases r with
  | login =>
    rw [← Except.ok.inj h]
  | bucketObjects b =>
    obtain ⟨b', -, rfl⟩ := exists_of_map_eq_ok h
    rfl
  | object b i =>
    obtain ⟨b', -, h⟩ := exists_of_bind_eq_ok h
    obtain ⟨i', -, h⟩ := exists_of_bind_eq_ok h
    rw [← Except.ok.inj h]
    rfl
  | bucketFiles b =>
    obtain ⟨b', -, rfl⟩ := exists_of_map_eq_ok h
    rfl
  | file b n =>
    obtain ⟨b', -, h⟩ := exists_of_bind_eq_ok h
    obtain ⟨n', -, h⟩ := exists_of_bind_eq_ok h
    rw [← Except.ok.inj h]
    rfl
  | custom n rest =>
    cases rest with
    | none =>
      obtain ⟨n', -, rfl⟩ := exists_of_map_eq_ok h
      rfl
    | some rest =>
      obtain ⟨n', -, h⟩ := exists_of_bind_eq_ok h
      obtain ⟨rest', -, h⟩ := exists_of_bind_eq_ok h
      rw [← Except.ok.inj h]
      rfl

theorem Route.perform_of_answer {s s' : Store} {f : Fresh} {c : Call} {r r' : Route}
    {reply : Reply} (hd : r.decoded = .ok r') (ht : r'.takes c.method = true)
    (h : r.answer s f c = .ok (reply, s')) :
    gate s f.now.second c = .ok () ∧ r'.perform s f c = .ok (reply, s') := by
  unfold Route.answer at h
  obtain ⟨u, hgate, h⟩ := exists_of_bind_eq_ok h
  rw [takes_of_decoded hd, if_pos ht, hd] at h
  exact ⟨hgate, h⟩

/-- A call whose reply is received as a success has got its parts decoded and its route carried
out. -/
theorem decoded_of_success {s : Store} {f : Fresh} {c : Call} {r : Route}
    (hr : Route.ofPath? c.path = some r) (ht : r.takes c.method = true)
    {ending : Except TransferError Unit}
    (hok : ((Head.ofStatus (answer s f c).1.status (answer s f c).1.headers).exchange
      [(answer s f c).1.body] ending).toTranscript.response.isSuccess = true) :
    ∃ r' reply s', r.decoded = .ok r' ∧ r'.perform s f c = .ok (reply, s') ∧
      answer s f c = (r.sent c reply, s') := by
  rcases answer_cases hr with ⟨reply, s', hanswer, ha⟩ | ⟨refusal, -, ha⟩
  · obtain ⟨u, -, h⟩ := exists_of_bind_eq_ok hanswer
    rw [if_pos ht] at h
    obtain ⟨r', hdecoded, hperform⟩ := exists_of_bind_eq_ok h
    exact ⟨r', reply, s', hdecoded, hperform, ha⟩
  · have hs := Route.sendable_sent c r refusal.sendable
    have hstatus := (Head.response_exchange hs [(r.sent c refusal.reply).body] ending).1
    rw [ha, Response.isSuccess, hstatus] at hok
    have hle := refusal.le_status
    have hsame := Route.status_sent c r refusal.reply
    simp only [Head.ofStatus, hsame, Bool.and_eq_true, decide_eq_true_eq] at hok
    omega

/-- A call whose reply is received as a success has done what its route and its method say. -/
theorem perform_of_success {s : Store} {f : Fresh} {c : Call} {r r' : Route}
    (hr : Route.ofPath? c.path = some r) (hd : r.decoded = .ok r')
    (ht : r'.takes c.method = true) {ending : Except TransferError Unit}
    (hok : ((Head.ofStatus (answer s f c).1.status (answer s f c).1.headers).exchange
      [(answer s f c).1.body] ending).toTranscript.response.isSuccess = true) :
    ∃ reply s', r'.perform s f c = .ok (reply, s') ∧ answer s f c = (r.sent c reply, s') := by
  have htakes : r.takes c.method = true := by
    rw [Route.takes_of_decoded hd]
    exact ht
  obtain ⟨route, reply, s', hdecoded, hperform, ha⟩ := decoded_of_success hr htakes hok
  obtain rfl : route = r' := Except.ok.inj (hdecoded.symm.trans hd)
  exact ⟨reply, s', hperform, ha⟩

/-- The route that a target takes, its parts decoded. -/
def routeOf? (url : String) : Option Route := do
  let target ← Target.ofText? url
  let route ← Route.ofPath? target.path
  route.decoded.toOption

theorem callOf?_spec {t : Transfer} {c : Call} (h : Backend.callOf? t = some c) :
    c.method = t.request.method.name ∧
      c.body = (t.upload.map (·.content)).getD t.request.body ∧
      ∃ target, Target.ofText? t.request.url = some target ∧ c.path = target.path ∧
        c.query = target.query.getD "" := by
  obtain ⟨target, ht, h⟩ := Option.bind_eq_some_iff.1 h
  dsimp only at h
  split at h
  · rw [← Option.some.inj h]
    exact ⟨rfl, rfl, target, ht, rfl, rfl⟩
  · cases h

/-- A request that succeeds has done on the server what its route and method say, and left there
what that leaves. -/
theorem perform_of_request_success {fresh : Nat → Fresh} {c : Client Unit Backend} {now : Int}
    {steps : List Draft.Step} {timeout : Int} {r : Response} {route : Route}
    (h : (c.request (Backend.engine fresh) now steps .plain timeout).1 = .success r)
    (hr : routeOf? ((c.service.draft now).applyAll steps).build.url = some route)
    (ht : route.takes ((c.service.draft now).applyAll steps).build.method.name = true) :
    ∃ call reply s',
      Backend.callOf? ⟨((c.service.draft now).applyAll steps).build, 0, none⟩ = some call ∧
      route.perform c.site.backend.store (fresh c.site.backend.calls) call = .ok (reply, s') ∧
      (c.request (Backend.engine fresh) now steps .plain timeout).2.site.backend.store = s' := by
  obtain ⟨-, call, hcall, hresponse, hsuccess, hbackend⟩ := call_of_request_success h
  obtain ⟨hmethod, -, target, htarget, hpath, -⟩ := callOf?_spec hcall
  obtain ⟨target', htarget', hr⟩ := Option.bind_eq_some_iff.1 hr
  obtain ⟨raw, hraw, hr⟩ := Option.bind_eq_some_iff.1 hr
  obtain rfl : target' = target := Option.some.inj (htarget'.symm.trans htarget)
  have hpath' : Route.ofPath? call.path = some raw := by rw [hpath, hraw]
  rw [hresponse] at hsuccess
  obtain ⟨reply, s', hperform, ha⟩ :=
    perform_of_success hpath' (eq_ok_of_toOption hr) (hmethod ▸ ht) hsuccess
  have hanswer : (c.site.backend.answer fresh call).2.store
      = (answer c.site.backend.store (fresh c.site.backend.calls) call).2 := rfl
  exact ⟨call, reply, s', hcall, hperform, by rw [hbackend, hanswer, ha]⟩

end Server
end AppBackend
