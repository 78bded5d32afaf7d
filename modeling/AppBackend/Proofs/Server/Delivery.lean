import AppBackend.Proofs.Json.RoundTrip
import AppBackend.Proofs.Server.Admission
import AppBackend.Proofs.Transfer.VerifiedDownload

/-!
# Requests on their way

A request of a client that the server takes, and the call that it makes there. Main statements:
`request_of_takes`, `upload_of_takes` and `download_of_takes`, what the client gets is the answer to
that call; `perform_of_plain_success` and `perform_of_upload_success`, a request that succeeds has
made it.
-/

namespace AppBackend

/-! ### What is received -/

namespace Server

/-- What a client receives of a reply. -/
def Reply.received (r : Reply) : Response :=
  ((Head.ofStatus r.status r.headers).exchange [r.body] (.ok ())).toTranscript.response

section
variable {r : Reply} (h : r.Sendable)
include h

theorem Reply.status_received : r.received.status = r.status :=
  (Head.response_exchange h [r.body] (.ok ())).1

theorem Reply.body_received : r.received.body = r.body := by
  have hbody := (Head.response_exchange h [r.body] (.ok ())).2
  rwa [List.flatten_cons, List.flatten_nil, List.append_nil] at hbody

theorem Reply.classify_received (hlow : 200 ≤ r.status) (hhigh : r.status < 300) :
    classify (.ok ()) r.received = .success r.received := by
  have hsuccess : r.received.isSuccess = true := by
    rw [Response.isSuccess, Reply.status_received h]
    simp [hlow, hhigh]
  exact classify_eq_success_iff.2 ⟨rfl, hsuccess, rfl⟩

end

/-- The object of a reply, its binary64 numbers read anew; nothing of one that is too deep. -/
theorem Reply.jsonObject_received_of_isOrdered {status : Nat} (hlow : 100 ≤ status)
    (hhigh : status ≤ 999) {fs : Json.Fields} (hordered : (Json.obj fs).isOrdered = true) :
    (Reply.json status (.obj fs)).received.jsonObject
      = if (Json.obj fs).depth ≤ 127 then Json.rereadMembers fs else [] := by
  have hbody : (Reply.json status (.obj fs)).received.body = (Json.obj fs).bytes :=
    Reply.body_received (Reply.sendable_json hlow hhigh _)
  rw [Response.jsonObject, hbody, Json.ofBytes?_bytes_of_isOrdered hordered]
  split <;> rfl

theorem Reply.jsonObject_received_of_list {ms : List Json.Fields}
    (hordered : ∀ m ∈ ms, (Json.obj m).isOrdered = true) :
    (Reply.json 200 (.obj [("results", .arr (ms.map .obj))])).received.jsonObject
      = if (Json.obj [("results", .arr (ms.map .obj))]).depth ≤ 127
        then [("results", (Json.arr (ms.map .obj)).reread)] else [] := by
  refine Reply.jsonObject_received_of_isOrdered (by decide) (by decide) (Json.isOrdered_obj.2 ?_)
  refine ⟨List.pairwise_singleton .., fun p hp => ?_⟩
  rw [List.mem_singleton.1 hp]
  exact Json.isOrdered_objs hordered

theorem Reply.jsonObject_received {status : Nat} (hlow : 100 ≤ status) (hhigh : status ≤ 999)
    {fs : Json.Fields} (hplain : (Json.obj fs).isPlain = true)
    (hdepth : (Json.obj fs).depth ≤ 127) :
    (Reply.json status (.obj fs)).received.jsonObject = fs := by
  have hmembers := (Json.isPlain_obj.1 hplain).2
  rw [Reply.jsonObject_received_of_isOrdered hlow hhigh (Json.isOrdered_of_isPlain hplain),
    if_pos hdepth, Json.rereadMembers_of_arePlainMembers (Json.arePlainMembers_iff.2 hmembers)]

end Server

/-! ### Downloads of one chunk -/

theorem Disk.room_write? {d d' : Disk} {path : String} {content : Bytes}
    (h : d.write? path content = some d') : d'.room = d.room := by
  obtain ⟨place, -, rfl⟩ := Option.map_eq_some_iff.1 h
  rfl

theorem Download.acceptAll_headers (d : Download) (lines : List String) (es : List Event) :
    d.acceptAll (lines.map .header ++ es)
      = ({ d with transcript := { d.transcript with
            lines := d.transcript.lines ++ lines } } : Download).acceptAll es := by
  induction lines generalizing d with
  | nil => simp
  | cons l lines ih =>
    rw [List.map_cons, List.cons_append, acceptAll]
    simp only [accept, ih, Transcript.accept, List.append_assoc, List.cons_append, List.nil_append]

/-- A reply with a body in one chunk and room for it: the lines are kept and the body is written. -/
theorem Download.acceptAll_exchange {h : Head} (hs : h.Sendable) (hok : h.status = 200)
    {content : Bytes} {room : Option Nat} (hroom : ∀ n, room = some n → content.length ≤ n)
    (ending : Except TransferError Unit) :
    ((begin (.file [])).within room).acceptAll (h.exchange [content] ending).events
      = (⟨⟨h.lines, []⟩, .file content, room, 200, content.length⟩, true) := by
  have hstatus : (⟨h.lines, []⟩ : Transcript).status = 200 := by
    rw [Head.status_lines hs, hok]
  have happend : (Destination.file []).append room content = (.file content, true) := by
    cases room with
    | none => rfl
    | some n =>
      have hfits := hroom n rfl
      simp [Destination.append, hfits, List.take_of_length_le hfits]
  rw [Head.exchange, acceptAll_headers]
  simp [acceptAll, accept, within, begin, currentStatus, hstatus, happend]

/-! ### Requests -/

/-- With its credentials complete and an executor free, a request is run. -/
theorem Client.request_of_free {ε ω : Type} (e : Engine ε ω) {now : Int} {steps : List Draft.Step}
    (what : Job) (timeout : Int) {c : Client ε ω}
    (hm : ((c.service.draft now).applyAll steps).missing? = none)
    (hfree : c.service.pool.acquire? e.fresh ≠ none) :
    ∃ (x : Executor ε) (seconds : Int),
      let r := x.run e what ((c.service.draft now).applyAll steps).build seconds c.site
      (c.request e now steps what timeout).1 = r.1 ∧
        (c.request e now steps what timeout).2.site = r.2.2 := by
  obtain ⟨loan, ha⟩ := Option.ne_none_iff_exists'.1 hfree
  unfold request send
  rw [execute_of_loan hm ha]
  exact ⟨loan.1, _, rfl, rfl⟩

namespace Server

/-- The server takes a request: the draft is admitted as the server is now, and an executor of the
client is free. -/
structure Takes (fresh : Nat → Fresh) (c : Client Unit Backend) (now : Int)
    (steps : List Draft.Step) : Prop where
  draft : ((c.service.draft now).applyAll steps).Admitted c.site.backend.store
    (fresh c.site.backend.calls).now.second
  free : c.service.pool.acquire? () ≠ none

theorem Takes.missing? {fresh : Nat → Fresh} {c : Client Unit Backend} {now : Int}
    {steps : List Draft.Step} (h : Takes fresh c now steps) :
    (c.service.draft now).missing? = none := by
  rw [← Draft.missing?_applyAll]
  exact Draft.missing?_of_admitted h.draft

theorem Takes.atServer {fresh : Nat → Fresh} {c : Client Unit Backend} {now : Int}
    {steps : List Draft.Step} (h : Takes fresh c now steps) : c.service.credentials.AtServer := by
  have hdraft := h.draft.atServer
  rwa [Draft.credentials_applyAll] at hdraft

/-- Without a session it is enough that the client names the application. -/
theorem takes_of_no_session {fresh : Nat → Fresh} {c : Client Unit Backend} {now : Int}
    {steps : List Draft.Step} (hserver : c.service.credentials.AtServer)
    (hid : c.service.credentials.appId = appId) (hkey : c.service.credentials.appKey = appKey)
    (hsession : (c.session now).token = "")
    (htarget : (Target.ofText? ((c.service.draft now).applyAll steps).url).isSome = true)
    (hfree : c.service.pool.acquire? () ≠ none) : Takes fresh c now steps := by
  have hcredentials := Draft.credentials_applyAll (c.service.draft now) steps
  refine ⟨⟨?_, htarget, ?_, ?_, Or.inl ?_⟩, hfree⟩
  · rw [hcredentials]
    exact hserver
  · rw [hcredentials]
    exact hid
  · rw [hcredentials]
    exact hkey
  · rw [Draft.sessionToken_applyAll]
    exact hsession

/-- A call that comes of a draft, with this body. -/
structure ComesOf (d : Draft) (body : Bytes) (call : Call) : Prop where
  sent : ∃ t, Backend.callOf? t = some call ∧ t.request.url = d.url
  method : call.method = d.method.name
  path : call.path.toList = "/1/tenant".toList ++ d.path.toList
  body : call.body = body

theorem comesOf_of_callOf? {d : Draft} (hd : d.credentials.AtServer)
    (hpath : Unmarked d.path.toList) {t : Transfer} {call : Call}
    (h : Backend.callOf? t = some call) (hurl : t.request.url = d.url)
    (hmethod : t.request.method = d.method) : ComesOf d call.body call where
  sent := ⟨t, h, hurl⟩
  method := by rw [(callOf?_spec h).1, hmethod]
  path := toList_path_of_sent hd hpath hurl h
  body := rfl

theorem ComesOf.params {d : Draft} {body : Bytes} {call : Call} (h : ComesOf d body call)
    (hd : d.credentials.AtServer) (hpath : Unmarked d.path.toList) {r : Route}
    (hr : Route.ofPath? call.path = some r) : call.params = d.params.filter Draft.isFull := by
  obtain ⟨t, hcall, hurl⟩ := h.sent
  have htenant : Unmarked d.credentials.tenant.toList := by
    rw [hd.tenant]
    decide
  exact params_of_sent (Draft.unmarked_place hd.unmarked htenant hpath) hurl hcall hr

/-- A draft that leads to a route, with a method that it takes. -/
structure Leads (d : Draft) (route : Route) : Prop where
  path : Unmarked d.path.toList
  arrives : ∀ path : String, path.toList = "/1/tenant".toList ++ d.path.toList →
    ∃ raw, Route.ofPath? path = some raw ∧ raw.decoded = .ok route
  takes : route.takes d.method.name = true

section
variable {d : Draft} {body : Bytes} {call : Call} {route : Route} {s s' : Store} {f : Fresh}
  {reply : Reply}

theorem name_ne_head (m : Method) : m.name ≠ "HEAD" := by
  cases m <;> decide

theorem ComesOf.arrives (hc : ComesOf d body call) (hl : Leads d route) :
    ∃ raw, Route.ofPath? call.path = some raw ∧ raw.decoded = .ok route ∧
      route.takes call.method = true ∧ call.method ≠ "HEAD" := by
  obtain ⟨raw, hraw, hdecoded⟩ := hl.arrives call.path hc.path
  refine ⟨raw, hraw, hdecoded, ?_, ?_⟩
  · rw [hc.method]
    exact hl.takes
  · rw [hc.method]
    exact name_ne_head d.method

/-- A call that is let in is answered by the route that its draft leads to. -/
theorem ComesOf.answer_of_perform (hc : ComesOf d body call) (hl : Leads d route)
    (hgate : gate s f.now.second call = .ok ()) (hp : route.perform s f call = .ok (reply, s')) :
    answer s f call = (reply, s') := by
  obtain ⟨raw, hraw, hdecoded, htakes, hhead⟩ := hc.arrives hl
  exact Server.answer_of_perform hraw hdecoded hgate htakes hhead hp

/-- A call that succeeds has been answered by the route that its draft leads to. -/
theorem ComesOf.perform_of_success {fresh : Nat → Fresh} {b : Backend} (hc : ComesOf d body call)
    (hl : Leads d route) (hok : (b.answer fresh call).1.received.isSuccess = true) :
    ∃ reply s', route.perform b.store (fresh b.calls) call = .ok (reply, s') ∧
      b.answer fresh call = (reply, ⟨s', b.calls + 1⟩) := by
  obtain ⟨raw, hraw, hdecoded, htakes, hhead⟩ := hc.arrives hl
  obtain ⟨reply, s', hp, ha⟩ := Server.perform_of_success hraw hdecoded htakes hok
  have htakes' : raw.takes call.method = true := by
    rw [Route.takes_of_decoded hdecoded]
    exact htakes
  rw [Route.sent_of_takes htakes' hhead] at ha
  exact ⟨reply, s', hp, by rw [Backend.answer, ha]⟩

end

section
variable {fresh : Nat → Fresh} {c : Client Unit Backend} {now : Int} {steps : List Draft.Step}
  {d : Draft}

/-- A request that the server takes makes a call that is let in. -/
theorem Takes.call (h : Takes fresh c now steps)
    (hdraft : (c.service.draft now).applyAll steps = d) (hu : d.Usual)
    (hpath : Unmarked d.path.toList) {extra : Pairs}
    (hextra : ∀ p ∈ extra, p.1 = HeaderName.contentLength ∧ Sendable p.2) {r : Request}
    (hr : r = { d.build with
      headers := d.build.headers ++ extra.map fun p => Request.headerLine p.1 p.2 })
    (timeout : Nat) (upload : Option Upload) :
    ∃ call, Backend.callOf? ⟨r, timeout, upload⟩ = some call ∧
      ComesOf d ((upload.map (·.content)).getD d.body) call ∧
      call.headers = d.headers ++ Draft.sender d.sessionToken ++ extra ∧
      gate c.site.backend.store (fresh c.site.backend.calls).now.second call = .ok () := by
  have hadmitted : d.Admitted c.site.backend.store (fresh c.site.backend.calls).now.second :=
    hdraft ▸ h.draft
  have hnames : ∀ p ∈ extra, HeaderName.isName p.1 = true ∧ Sendable p.2 := by
    intro p hp
    rw [(hextra p hp).1]
    exact ⟨by decide, (hextra p hp).2⟩
  obtain ⟨call, hcall, hmethod, hheaders, hbody⟩ :=
    callOf?_of_admitted hadmitted hu hnames hr timeout upload
  have hcomes : ComesOf d call.body call :=
    comesOf_of_callOf? hadmitted.atServer hpath hcall (by rw [hr]; rfl) (by rw [hr]; rfl)
  refine ⟨call, hcall, hbody ▸ hcomes, hheaders, ?_⟩
  exact gate_of_admitted hadmitted hu (fun p hp => (hextra p hp).1) hheaders

theorem request_of_takes (h : Takes fresh c now steps)
    (hdraft : (c.service.draft now).applyAll steps = d) (hu : d.Usual)
    (hpath : Unmarked d.path.toList) (timeout : Int) :
    ∃ call, ComesOf d d.body call ∧
      gate c.site.backend.store (fresh c.site.backend.calls).now.second call = .ok () ∧
      let a := c.site.backend.answer fresh call
      (c.request (Backend.engine fresh) now steps .plain timeout).1
        = classify (.ok ()) a.1.received ∧
      (c.request (Backend.engine fresh) now steps .plain timeout).2.site.backend = a.2 := by
  obtain ⟨x, seconds, houtcome, hsite⟩ := Client.request_of_free (Backend.engine fresh) .plain
    timeout (Draft.missing?_of_admitted h.draft) h.free
  have hnone : ∀ p ∈ ([] : Pairs), p.1 = HeaderName.contentLength ∧ Sendable p.2 := by simp
  obtain ⟨call, hcall, hcomes, -, hgate⟩ := h.call hdraft hu hpath hnone
    (r := d.build) (by simp) (effectiveTimeout seconds) none
  refine ⟨call, hcomes, hgate, ?_⟩
  simp only [hdraft, run_plain, hcall] at houtcome hsite
  exact ⟨houtcome, congrArg Site.backend hsite⟩

theorem run_upload_of_call (fresh : Nat → Fresh) (x : Executor Unit) {r : Request} {path : String}
    {content : Bytes} {s : Site Backend} (hfile : s.disk.node? path = some (.file content))
    (hsends : r.method.sendsBody = true) {timeout : Int} {call : Call}
    (hcall : Backend.callOf? (uploadOf r content timeout) = some call) :
    Executor.run (Backend.engine fresh) x (.upload path) r timeout s =
      (classify (.ok ()) (s.backend.answer fresh call).1.received, x,
        { s with backend := (s.backend.answer fresh call).2 }) := by
  simp only [run_upload fresh x hfile hsends, hcall]
  rfl

/-- An upload sends the whole file. -/
theorem upload_of_takes (h : Takes fresh c now steps)
    (hdraft : (c.service.draft now).applyAll steps = d) (hu : d.Usual)
    (hpath : Unmarked d.path.toList) (hsends : d.method.sendsBody = true) {localPath : String}
    {content : Bytes} (hfile : c.site.disk.node? localPath = some (.file content))
    (timeout : Int) :
    ∃ call, ComesOf d content call ∧
      (∃ extra : Pairs, (∀ p ∈ extra, p.1 = HeaderName.contentLength) ∧
        call.headers = d.headers ++ Draft.sender d.sessionToken ++ extra) ∧
      gate c.site.backend.store (fresh c.site.backend.calls).now.second call = .ok () ∧
      let a := c.site.backend.answer fresh call
      (c.request (Backend.engine fresh) now steps (.upload localPath) timeout).1
        = classify (.ok ()) a.1.received ∧
      (c.request (Backend.engine fresh) now steps (.upload localPath) timeout).2.site.backend
        = a.2 := by
  obtain ⟨x, seconds, houtcome, hsite⟩ := Client.request_of_free (Backend.engine fresh)
    (.upload localPath) timeout (Draft.missing?_of_admitted h.draft) h.free
  let length : Pairs := [(HeaderName.contentLength, String.ofList (Numeral.write content.length))]
  have hlength : ∀ p ∈ length, p.1 = HeaderName.contentLength ∧ Sendable p.2 := by
    intro p hp
    rw [List.mem_singleton.1 hp]
    exact ⟨rfl, sendable_write content.length⟩
  obtain ⟨call, hcall, hcomes, hheaders, hgate⟩ := h.call hdraft hu hpath hlength
    (r := Executor.withLength d.build content.length) rfl
    (effectiveTimeout seconds) (some (.ofNode (.file content)))
  change Backend.callOf? (uploadOf d.build content seconds) = some call at hcall
  refine ⟨call, hcomes, ⟨length, fun p hp => (hlength p hp).1, hheaders⟩, hgate, ?_⟩
  simp only [hdraft, run_upload_of_call fresh x (r := d.build) hfile hsends hcall] at houtcome hsite
  exact ⟨houtcome, congrArg Site.backend hsite⟩

/-- The length that a reply declares is read from its lines alone. -/
theorem declaredLength?_lines (reply : Reply) :
    declaredLength? (⟨(Head.ofStatus reply.status reply.headers).lines, []⟩ : Transcript).response
      = declaredLength? reply.received := by
  rw [Reply.received, Head.toTranscript_exchange,
    Transcript.response_of_lines _ [reply.body].flatten []]
  rfl

/-- A download whose reply has status 200 and fits: the body is in the destination, and its length
is checked against the one that the reply declares. -/
theorem run_download_of_call (fresh : Nat → Fresh) (x : Executor Unit) {r : Request}
    (hget : r.method = .get) {localPath : String} (hdevice : localPath ≠ Disk.fullDevice)
    {timeout : Int} {call : Call}
    (hcall : Backend.callOf? ⟨r, effectiveTimeout timeout, none⟩ = some call) {s : Site Backend}
    (hwrite : (s.disk.write? localPath []).isSome = true)
    (hs : (s.backend.answer fresh call).1.Sendable)
    (hstatus : (s.backend.answer fresh call).1.status = 200)
    (hroom : ∀ n, s.disk.room = some n → (s.backend.answer fresh call).1.body.length ≤ n) :
    let a := s.backend.answer fresh call
    let result := x.run (Backend.engine fresh) (.download localPath) r timeout s
    result.1.map (fun r => (declaredLength? r).getD 0)
        = (if declaredLength? a.1.received = some a.1.body.length
            then .success a.1.body.length else .fatal .downloadLength) ∧
      result.2.2.disk.read? localPath = some a.1.body ∧ result.2.2.backend = a.2 := by
  intro a result
  obtain ⟨disk, hdisk⟩ := Option.isSome_iff_exists.1 hwrite
  obtain ⟨final, hfinal⟩ :=
    Option.isSome_iff_exists.1 (Disk.isSome_write?_of_write? hdisk a.1.body)
  have hopen : Executor.openDestination? s.disk localPath = some (.file [], disk) := by
    rw [Executor.openDestination?, if_neg hdevice, hdisk]
    rfl
  let lines := (Head.ofStatus a.1.status a.1.headers).lines
  let kept : Response := (⟨lines, []⟩ : Transcript).response
  have hreceive : ((Head.ofStatus a.1.status a.1.headers).exchange [a.1.body] (.ok ())).receive
      ((Download.begin (.file [])).within disk.room)
        = (⟨⟨lines, []⟩, .file a.1.body, disk.room, 200, a.1.body.length⟩, .ok ()) := by
    rw [Exchange.receive, Download.acceptAll_exchange hs hstatus
      (by rw [Disk.room_write? hdisk]; exact hroom)]
    rfl
  have hkept : classify (.ok ()) kept = .success kept := by
    have hsuccess : kept.isSuccess = true := by
      have hcode : kept.status = 200 := by
        rw [Transcript.response_status, Head.status_lines hs]
        exact hstatus
      rw [Response.isSuccess, hcode]
      rfl
    exact classify_eq_success_iff.2 ⟨rfl, hsuccess, rfl⟩
  have hresult : result = (Executor.verify a.1.body.length (.success kept), x,
      ⟨Executor.store disk localPath (.file a.1.body), a.2⟩) := by
    have hrun : result = Executor.runDownload (Backend.engine fresh) x r localPath
      (effectiveTimeout timeout) s := rfl
    rw [hrun, Executor.runDownload, hopen]
    dsimp only
    rw [if_pos hget]
    have hread : Transfer.isReadable ⟨r, effectiveTimeout timeout, none⟩ = true := rfl
    simp only [Executor.perform, Backend.perform_of_readable hread, hcall]
    rw [show ((Head.ofStatus (s.backend.answer fresh call).1.status _).exchange _ _).receive _
      = _ from hreceive, ← hkept]
    rfl
  rw [hresult]
  refine ⟨?_, ?_, rfl⟩
  · have hlength : declaredLength? kept = declaredLength? a.1.received :=
      declaredLength?_lines a.1
    rw [Executor.verify, Outcome.andThen, hlength]
    split
    · rename_i hdeclared
      rw [Outcome.map, hlength, hdeclared]
      rfl
    · rfl
  · rw [Executor.store, hfinal]
    exact Disk.read?_write? hfinal

theorem download_of_takes (h : Takes fresh c now steps)
    (hdraft : (c.service.draft now).applyAll steps = d) (hu : d.Usual)
    (hpath : Unmarked d.path.toList) (hget : d.method = .get) {localPath : String}
    (hdevice : localPath ≠ Disk.fullDevice)
    (hwrite : (c.site.disk.write? localPath []).isSome = true) (timeout : Int) :
    ∃ call, ComesOf d d.body call ∧
      gate c.site.backend.store (fresh c.site.backend.calls).now.second call = .ok () ∧
      let a := c.site.backend.answer fresh call
      (a.1.Sendable → a.1.status = 200 →
        (∀ n, c.site.disk.room = some n → a.1.body.length ≤ n) →
        let result := c.request (Backend.engine fresh) now steps (.download localPath) timeout
        result.1.map (fun r => (declaredLength? r).getD 0)
            = (if declaredLength? a.1.received = some a.1.body.length
                then .success a.1.body.length else .fatal .downloadLength) ∧
          result.2.site.disk.read? localPath = some a.1.body ∧ result.2.site.backend = a.2) := by
  obtain ⟨x, seconds, houtcome, hsite⟩ := Client.request_of_free (Backend.engine fresh)
    (.download localPath) timeout (Draft.missing?_of_admitted h.draft) h.free
  have hnone : ∀ p ∈ ([] : Pairs), p.1 = HeaderName.contentLength ∧ Sendable p.2 := by simp
  obtain ⟨call, hcall, hcomes, -, hgate⟩ := h.call hdraft hu hpath hnone
    (r := d.build) (by simp) (effectiveTimeout seconds) none
  refine ⟨call, hcomes, hgate, ?_⟩
  intro a hsendable hstatus hroom result
  have hrun := run_download_of_call fresh x (r := d.build) hget hdevice hcall hwrite hsendable
    hstatus hroom
  rw [show result.1 = _ from houtcome, show result.2.site = _ from hsite, hdraft]
  exact hrun

/-! ### Requests that succeed -/

/-- A request that succeeds has come upon a route. If the route takes its method, then its parts
were decoded and it was carried out. -/
theorem route_of_plain_success {timeout : Int} {r : Response}
    (h : (c.request (Backend.engine fresh) now steps .plain timeout).1 = .success r) :
    ∃ call raw,
      Backend.callOf? ⟨((c.service.draft now).applyAll steps).build, 0, none⟩ = some call ∧
      Route.ofPath? call.path = some raw ∧
      (raw.takes call.method = true → ∃ route reply s', raw.decoded = .ok route ∧
        route.perform c.site.backend.store (fresh c.site.backend.calls) call = .ok (reply, s') ∧
        r = reply.received) := by
  obtain ⟨-, call, hcall, hr, hsuccess, -⟩ := call_of_request_success h
  rw [hr] at hsuccess
  cases hpath : Route.ofPath? call.path with
  | none =>
    have hanswer : (c.site.backend.answer fresh call).1 = .empty 404 :=
      congrArg Prod.fst (answer_of_unknown hpath)
    rw [hanswer] at hsuccess
    exact absurd hsuccess (by decide)
  | some raw =>
    refine ⟨call, raw, hcall, hpath, fun htakes => ?_⟩
    obtain ⟨route, reply, s', hdecoded, hperform, ha⟩ := decoded_of_success hpath htakes hsuccess
    have hhead : call.method ≠ "HEAD" := by
      rw [(callOf?_spec hcall).1]
      exact name_ne_head _
    have hanswer : (c.site.backend.answer fresh call).1 = reply := by
      rw [← Route.sent_of_takes htakes hhead reply]
      exact congrArg Prod.fst ha
    refine ⟨route, reply, s', hdecoded, hperform, ?_⟩
    rw [hr, hanswer]
    rfl

theorem atServer_of_draft (hd : c.service.credentials.AtServer)
    (hdraft : (c.service.draft now).applyAll steps = d) : d.credentials.AtServer := by
  rw [← hdraft, Draft.credentials_applyAll]
  exact hd

theorem call_of_plain_success {timeout : Int} {r : Response}
    (hd : c.service.credentials.AtServer) (hdraft : (c.service.draft now).applyAll steps = d)
    (hpath : Unmarked d.path.toList)
    (h : (c.request (Backend.engine fresh) now steps .plain timeout).1 = .success r) :
    ∃ call, ComesOf d d.body call ∧ r = (c.site.backend.answer fresh call).1.received ∧
      r.isSuccess = true ∧
      (c.request (Backend.engine fresh) now steps .plain timeout).2.site.backend
        = (c.site.backend.answer fresh call).2 := by
  obtain ⟨-, call, hcall, hr, hsuccess, hbackend⟩ := call_of_request_success h
  rw [hdraft] at hcall
  have hcomes := comesOf_of_callOf? (atServer_of_draft hd hdraft) hpath hcall rfl rfl
  have hbody : call.body = d.body := (callOf?_spec hcall).2.1
  exact ⟨call, hbody ▸ hcomes, hr, hsuccess, hbackend⟩

/-- An upload that succeeds has sent the whole file. -/
theorem call_of_upload_success {localPath : String} {timeout : Int} {r : Response}
    (hd : c.service.credentials.AtServer) (hdraft : (c.service.draft now).applyAll steps = d)
    (hpath : Unmarked d.path.toList)
    (h : (c.request (Backend.engine fresh) now steps (.upload localPath) timeout).1
      = .success r) :
    ∃ content call, c.site.disk.node? localPath = some (.file content) ∧
      ComesOf d content call ∧ r = (c.site.backend.answer fresh call).1.received ∧
      r.isSuccess = true ∧
      (c.request (Backend.engine fresh) now steps (.upload localPath) timeout).2.site.backend
        = (c.site.backend.answer fresh call).2 := by
  obtain ⟨f, hf⟩ | ⟨-, x, seconds, houtcome, hsite⟩ :=
    Client.request_cases (Backend.engine fresh) now steps (.upload localPath) timeout c
  · rw [hf] at h
    cases h
  rw [houtcome, hdraft] at h
  obtain ⟨hsends, content, hfile⟩ := file_of_upload_success h
  cases hcall : Backend.callOf? (uploadOf d.build content seconds) with
  | none =>
    rw [run_upload fresh x hfile hsends, hcall] at h
    cases h
  | some call =>
    simp only [run_upload_of_call fresh x (r := d.build) hfile hsends hcall] at h
    rw [hsite, hdraft, run_upload_of_call fresh x hfile hsends hcall]
    have hcomes := comesOf_of_callOf? (atServer_of_draft hd hdraft) hpath hcall rfl rfl
    obtain ⟨hr, hsuccess⟩ := eq_of_classify_success h
    have hbody : call.body = content := (callOf?_spec hcall).2.1
    exact ⟨content, call, hfile, hbody ▸ hcomes, hr, hr ▸ hsuccess, rfl⟩

/-- A request that succeeds has been answered by the route that its draft leads to. -/
theorem perform_of_plain_success {timeout : Int} {response : Response} {route : Route}
    (hd : c.service.credentials.AtServer) (hdraft : (c.service.draft now).applyAll steps = d)
    (hleads : Leads d route)
    (h : (c.request (Backend.engine fresh) now steps .plain timeout).1 = .success response) :
    ∃ call reply s', ComesOf d d.body call ∧
      route.perform c.site.backend.store (fresh c.site.backend.calls) call = .ok (reply, s') ∧
      response = reply.received ∧
      (c.request (Backend.engine fresh) now steps .plain timeout).2.site.backend
        = ⟨s', c.site.backend.calls + 1⟩ := by
  obtain ⟨call, hcomes, hresponse, hsuccess, hbackend⟩ :=
    call_of_plain_success hd hdraft hleads.path h
  rw [hresponse] at hsuccess
  obtain ⟨reply, s', hp, ha⟩ := hcomes.perform_of_success hleads hsuccess
  rw [ha] at hresponse hbackend
  exact ⟨call, reply, s', hcomes, hp, hresponse, hbackend⟩

theorem perform_of_upload_success {localPath : String} {timeout : Int} {response : Response}
    {route : Route} (hd : c.service.credentials.AtServer)
    (hdraft : (c.service.draft now).applyAll steps = d) (hleads : Leads d route)
    (h : (c.request (Backend.engine fresh) now steps (.upload localPath) timeout).1
      = .success response) :
    ∃ content call reply s', c.site.disk.node? localPath = some (.file content) ∧
      ComesOf d content call ∧
      route.perform c.site.backend.store (fresh c.site.backend.calls) call = .ok (reply, s') ∧
      (c.request (Backend.engine fresh) now steps (.upload localPath) timeout).2.site.backend
        = ⟨s', c.site.backend.calls + 1⟩ := by
  obtain ⟨content, call, hfile, hcomes, hresponse, hsuccess, hbackend⟩ :=
    call_of_upload_success hd hdraft hleads.path h
  rw [hresponse] at hsuccess
  obtain ⟨reply, s', hp, ha⟩ := hcomes.perform_of_success hleads hsuccess
  rw [ha] at hbackend
  exact ⟨content, call, reply, s', hfile, hcomes, hp, hbackend⟩

end

end Server
end AppBackend
