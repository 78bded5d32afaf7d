import AppBackend.Proofs.Server.ConditionalWrites
import AppBackend.Proofs.Server.FileHistory

/-!
# Files uploaded and downloaded

What a client gets of a file that a server keeps, and what it takes for an upload to succeed. Main
statement: `upload_then_download`.
-/

namespace AppBackend

/-! ### Declared lengths -/

/-- Whatever the value of a line, its name reads back. -/
theorem name_headerOfLine? {name : String} (hn : ':' ∉ name.toList) (value : String) :
    ∃ read, headerOfLine? (Request.headerLine name value ++ Head.lineEnd) = some (name, read) := by
  rw [headerOfLine?, toList_headerLine, Text.cut?_append _ hn, Option.map_some, String.ofList_toList]
  exact ⟨_, rfl⟩

theorem Disk.node?_of_read? {d : Disk} {path : String} {content : Bytes}
    (h : d.read? path = some content) : path ≠ "" ∧ d.node? path = some (.file content) := by
  have hnode : d.node? path = some (.file content) := by
    unfold read? at h
    split at h
    · rename_i found hfound
      rw [hfound, Option.some.inj h]
    · cases h
  refine ⟨?_, hnode⟩
  rintro rfl
  cases hnode

/-- A path that a download can write, with room for this many octets. -/
structure Disk.Writable (d : Disk) (path : String) (length : Nat) : Prop where
  device : path ≠ Disk.fullDevice
  opens : (d.write? path []).isSome = true
  room : ∀ n, d.room = some n → length ≤ n

theorem Disk.Writable.ne_empty {d : Disk} {path : String} {length : Nat}
    (h : d.Writable path length) : path ≠ "" := by
  rintro rfl
  cases h.opens

namespace Server

theorem Reply.headers_received {r : Reply} (h : r.Sendable) :
    r.received.headers
      = (r.headers.map (fun p => Request.headerLine p.1 p.2 ++ Head.lineEnd)
        ++ [Head.lineEnd]).filterMap headerOfLine? := by
  have hlast := Head.lastStatus?_lines (h := Head.ofStatus r.status r.headers) h
  rw [received, Head.toTranscript_exchange, Transcript.response]
  simp only [hlast]
  rfl

namespace Files

/-- The reply to a download. -/
def contentReply (contentType : String) (declared : Nat) (content : Bytes) : Reply :=
  ⟨200, [(Reply.contentType, contentType),
    (Reply.fileLength, String.ofList (Numeral.write declared))], content⟩

section
variable (contentType : String) (declared : Nat) (content : Bytes)

theorem sendable_contentReply : (contentReply contentType declared content).Sendable := by
  have hnames : ∀ name ∈ [Reply.contentType, Reply.fileLength], name.toList.head? ≠ some 'H' := by
    decide
  refine ⟨(by decide : 100 ≤ 200), (by decide : 200 ≤ 999), fun p hp => hnames p.1 ?_⟩
  exact List.mem_map_of_mem (f := Prod.fst) hp

theorem declaredLength?_contentReply {declared : Nat} (h : declared < 2 ^ 64) :
    declaredLength? (contentReply contentType declared content).received = some declared := by
  have hdigits : ∀ c ∈ Numeral.write declared, Text.isBlank c = false := fun c hc =>
    isBlank_of_isDigit (Numeral.isDigit_of_mem_write hc)
  obtain ⟨read, hfirst⟩ :=
    name_headerOfLine? (by decide : ':' ∉ Reply.contentType.toList) contentType
  have hnotSpace : (String.ofList (Numeral.write declared)).toList.head? ≠ some ' ' := by
    rw [String.toList_ofList]
    intro hspace
    exact absurd (hdigits ' ' (List.mem_of_head? hspace)) (by decide)
  have hsecond :=
    headerOfLine?_headerLine (by decide : ':' ∉ Reply.fileLength.toList) hnotSpace
  have hheaders : (contentReply contentType declared content).received.headers
      = [(Reply.contentType, read),
        (Reply.fileLength, String.ofList (Numeral.write declared))] := by
    have hend : [Head.lineEnd].filterMap headerOfLine? = [] := by decide
    rw [Reply.headers_received (sendable_contentReply ..)]
    simp only [contentReply, List.map_cons, List.map_nil, List.cons_append, List.nil_append,
      List.filterMap_cons_some hfirst, List.filterMap_cons_some hsecond, hend]
  have hother : Text.sameName Reply.contentType HeaderName.fileLength = false := by decide
  have hsame : Text.sameName Reply.fileLength HeaderName.fileLength = true := by decide
  have hvalue : (contentReply contentType declared content).received.header? HeaderName.fileLength
      = some (String.ofList (Numeral.write declared)) := by
    rw [Response.header?, hheaders, Pairs.header?]
    simp [hother, hsame]
  rw [declaredLength?, hvalue, Option.bind_some, String.toList_ofList,
    Text.trimBlank_eq_self hdigits]
  exact Numeral.read?_write h

end

/-- What a call finds of a file that can be read. -/
theorem perform_read {s : Store} {bucket name : String} {content : Bytes}
    (h : s.Offers bucket name content) {c : Call} (hget : c.method = "GET") (f : Fresh) :
    ∃ contentType, (Route.file bucket name).perform s f c
      = .ok (contentReply contentType (declaredLength bucket content) content, s) := by
  obtain ⟨m, hfile, hseen⟩ := h.stored
  have hlook : lookUp s bucket name = .ok ⟨m, content⟩ := by
    rw [lookUp, hfile]
  refine ⟨((m.get? "contentType").bind Json.str?).getD defaultContentType, ?_⟩
  have hread : read s bucket name
      = .ok (contentReply (((m.get? "contentType").bind Json.str?).getD defaultContentType)
        (declaredLength bucket content) content, s) := by
    rw [read, hlook]
    exact if_neg (by simp [hseen])
  rw [Route.perform, hget]
  exact hread

theorem declaredLength_lt {content : Bytes} (h : content.length ≤ Call.maxBody) (bucket : String) :
    declaredLength bucket content < 2 ^ 64 := by
  have hbound : Call.maxBody + missingOctets < 2 ^ 64 := by decide
  rw [declaredLength]
  split <;> omega

theorem declaredLength_eq_iff (bucket : String) (content : Bytes) :
    declaredLength bucket content = content.length ↔ bucket ≠ truncatedBucket := by
  rw [declaredLength]
  split <;> simp_all [missingOctets]

end Files

/-! ### Downloads -/

section
variable {fresh : Nat → Fresh} {c : Client Unit Backend} {now : Int} {b : Bucket}
  {name localPath : String} {content : Bytes}

/-- A client that the server takes downloads a file that can be read. -/
theorem download_of_offers (hb : BucketName b.name) (hname : name ≠ "")
    (hoffers : c.site.backend.store.Offers b.name name content)
    (htakes : Takes fresh c now (Operation.downloadFile b name localPath).plan.steps)
    (hwritable : c.site.disk.Writable localPath content.length) :
    let r := FileBucket.download (Backend.engine fresh) now b name localPath c
    r.1 = (if b.name = Files.truncatedBucket then .fatal .downloadLength
        else .success content.length) ∧
      r.2.site.disk.read? localPath = some content := by
  intro r
  let d : Draft := { c.service.draft now with path := filePath b.name name }
  have hdraft : (c.service.draft now).applyAll (Operation.downloadFile b name localPath).plan.steps
      = d := by
    rw [Draft.applyAll_of_complete htakes.missing?]
    exact (Draft.foldl_file _ .get b name []).symm ▸ rfl
  have hleads : Leads d (.file b.name name) := leads_file hb hname rfl rfl
  have husual : d.Usual := ⟨rfl, by simp [d, Service.draft], by simp [d, Service.draft]⟩
  obtain ⟨call, hcomes, hgate, hdownload⟩ := download_of_takes htakes hdraft husual hleads.path rfl
    hwritable.device hwritable.opens b.timeout
  obtain ⟨contentType, hperform⟩ :=
    Files.perform_read hoffers hcomes.method (fresh c.site.backend.calls)
  have hanswer : (c.site.backend.answer fresh call).1
      = Files.contentReply contentType (Files.declaredLength b.name content) content :=
    congrArg Prod.fst (hcomes.answer_of_perform hleads hgate hperform)
  dsimp only at hdownload
  rw [hanswer] at hdownload
  obtain ⟨houtcome, hread, -⟩ :=
    hdownload (Files.sendable_contentReply ..) rfl hwritable.room
  let sent := c.request (Backend.engine fresh) now
    (Operation.downloadFile b name localPath).plan.steps (.download localPath) b.timeout
  have hr : r = (sent.1.map fun r => (declaredLength? r).getD 0, sent.2) := by
    simp only [r, sent, FileBucket.download, Operation.plan, hname, hwritable.ne_empty, hb.full,
      or_self, if_false]
  rw [hr]
  refine ⟨houtcome.trans ?_, hread⟩
  have hdeclared := Files.declaredLength?_contentReply contentType content
    (Files.declaredLength_lt hoffers.fits b.name)
  have hexact := Files.declaredLength_eq_iff b.name content
  by_cases htruncated : b.name = Files.truncatedBucket
  · rw [if_pos htruncated]
    refine if_neg fun h => ?_
    exact hexact.1 (Option.some.inj (hdeclared.symm.trans h)) htruncated
  · rw [if_neg htruncated]
    exact if_pos (hdeclared.trans (congrArg some (hexact.2 htruncated)))

end

/-! ### Uploads -/

/-- A content type that can be sent: printable ASCII that does not begin with a space. -/
structure Printable (value : String) : Prop where
  full : value ≠ ""
  printable : ∀ c ∈ value.toList, 32 ≤ c.toNat ∧ c.toNat < 127
  begins : value.toList.head? ≠ some ' '

theorem Printable.isReadable {value : String} (h : Printable value) :
    Call.isReadable value = true := by
  rw [Call.isReadable, List.all_eq_true]
  intro c hc
  obtain ⟨hlow, hhigh⟩ := h.printable c hc
  simp [hlow, hhigh]

/-- A call that sends a content type, who is asking and a length names no access list. -/
theorem acl_of_headers {call : Call} {contentType token : String} {extra : Pairs}
    (hextra : ∀ p ∈ extra, p.1 = HeaderName.contentLength)
    (h : call.headers = [(HeaderName.contentType, contentType)] ++ Draft.sender token ++ extra) :
    call.header? HeaderName.acl = none := by
  have hothers : ∀ name ∈ [HeaderName.appId, HeaderName.appKey, HeaderName.sessionToken,
      HeaderName.userAgent], Text.sameName name HeaderName.acl = false := by decide
  have hnone : ∀ p ∈ call.headers, Text.sameName p.1 HeaderName.acl = false := by
    intro p hp
    rw [h] at hp
    rcases List.mem_append.1 hp with hp | hp
    · rcases List.mem_append.1 hp with hp | hp
      · rw [List.mem_singleton.1 hp]
        exact (by decide : Text.sameName HeaderName.contentType HeaderName.acl = false)
      · exact hothers p.1 (Draft.name_of_mem_sender hp)
    · rw [hextra p hp]
      decide
  rw [Call.header?, ← List.append_nil call.headers, Pairs.header?_append_of_ne hnone]
  rfl

theorem Call.content_of_fits {c : Call} (h : c.body.length ≤ maxBody) : c.content = .ok c.body :=
  if_neg (Nat.not_lt.2 h)

theorem Files.perform_create {s : Store} {bucket name contentType : String} {c : Call}
    (hpost : c.method = "POST") (hfits : c.body.length ≤ Call.maxBody)
    (htype : contentType? c = some contentType) (hacl : c.header? HeaderName.acl = none)
    (hnone : s.file? bucket name = none) (f : Fresh) :
    ∃ m s', (Route.file bucket name).perform s f c = .ok (.json 201 (.obj m), s') := by
  have hdefault : acl c = .ok defaultAcl := by
    rw [acl, hacl]
  have hcreate : ∃ m s', create s f c bucket name = .ok (.json 201 (.obj m), s') := by
    rw [create, Call.content_of_fits hfits]
    simp only [htype, hdefault, hnone]
    exact ⟨_, _, rfl⟩
  rw [Route.perform, hpost]
  exact hcreate

theorem Files.perform_update {s : Store} {bucket name : String} {c : Call} (hput : c.method = "PUT")
    (hfits : c.body.length ≤ Call.maxBody) (hparams : c.params = []) {file : StoredFile}
    (hfile : s.file? bucket name = some file) (f : Fresh) :
    ∃ m s', (Route.file bucket name).perform s f c = .ok (.json 200 (.obj m), s') := by
  have hlook : lookUp s bucket name = .ok file := by
    rw [lookUp, hfile]
  have hetag (key : String) (m : Json.Fields) : c.checkEtag key m = .ok () := by
    rw [Call.checkEtag, Call.param?, hparams]
    rfl
  have hetags : checkEtags c file.metadata = .ok () := by
    rw [checkEtags, hetag metaEtag]
    exact hetag fileEtag _
  have hupdate : ∃ m s', update s f c bucket name = .ok (.json 200 (.obj m), s') := by
    rw [update, Call.content_of_fits hfits]
    simp only [hlook, bind, Except.bind, hetags]
    exact ⟨_, _, rfl⟩
  rw [Route.perform, hput]
  exact hupdate

/-- A draft for an upload: a content type, if there is one, is its only header. -/
def uploadDraft (d : Draft) (m : Method) (bucket name contentType : String) (params : Pairs) :
    Draft :=
  { d with
    method := m
    path := filePath bucket name
    params := params
    headers := [(HeaderName.contentType, contentType)].filter Draft.isFull }

section
variable {fresh : Nat → Fresh} {c : Client Unit Backend} {now : Int} {b : Bucket}
  {name localPath contentType : String} {content : Bytes}

theorem change_contentType (d : Draft) (hd : d.headers = []) (contentType : String) :
    d.change (.appendHeader HeaderName.contentType contentType)
      = { d with headers := [(HeaderName.contentType, contentType)].filter Draft.isFull } := by
  cases hfull : Draft.isFull (HeaderName.contentType, contentType) with
  | true => simp [Draft.change, hfull, hd]
  | false =>
    rw [List.filter_cons_of_neg (by simp [hfull]), List.filter_nil, ← hd]
    simp [Draft.change, hfull]

/-- An upload succeeds if the server takes it and the call that it makes gets through. -/
theorem success_of_upload (hb : BucketName b.name) (hname : name ≠ "") {o : Operation}
    (hargs : o.plan.refused? = none) (hjob : o.plan.job = .upload localPath)
    (htakes : Takes fresh c now o.plan.steps) {m : Method} {params : Pairs}
    (hdraft : (c.service.draft now).applyAll o.plan.steps
      = uploadDraft (c.service.draft now) m b.name name contentType params)
    (hsends : m.sendsBody = true) (htype : contentType = "" ∨ Printable contentType)
    (hfile : c.site.disk.node? localPath = some (.file content)) {status : Nat}
    (hlow : 200 ≤ status) (hhigh : status < 300)
    (hperform : ∀ call token extra,
      ComesOf (uploadDraft (c.service.draft now) m b.name name contentType params) content call →
      (∀ p ∈ extra, p.1 = HeaderName.contentLength) →
      call.headers = [(HeaderName.contentType, contentType)].filter Draft.isFull
        ++ Draft.sender token ++ extra →
      ∃ v s', (Route.file b.name name).perform c.site.backend.store (fresh c.site.backend.calls)
        call = .ok (.json status v, s')) :
    (o.run (Backend.engine fresh) now c).1.value?.isSome = true := by
  let d := uploadDraft (c.service.draft now) m b.name name contentType params
  have hroute : (Route.file b.name name).takes m.name = true := by cases m <;> rfl
  have hleads : Leads d (.file b.name name) := leads_file hb hname rfl hroute
  have husual : d.Usual := by
    refine ⟨rfl, fun p hp => ?_, fun p hp => ?_⟩
    · rw [List.mem_singleton.1 (List.mem_filter.1 hp).1]
    · obtain ⟨hmem, hfull⟩ := List.mem_filter.1 hp
      rw [List.mem_singleton.1 hmem] at hfull ⊢
      rcases htype with rfl | hprintable
      · cases hfull
      · exact ⟨hprintable.full, sendable_of_printable hprintable.printable hprintable.begins⟩
  obtain ⟨call, hcomes, ⟨extra, hextra, hheaders⟩, hgate, houtcome, -⟩ :=
    upload_of_takes htakes hdraft husual hleads.path hsends hfile o.plan.timeout
  obtain ⟨v, s', hp⟩ := hperform call _ extra hcomes hextra hheaders
  have hanswer : (c.site.backend.answer fresh call).1 = .json status v :=
    congrArg Prod.fst (hcomes.answer_of_perform hleads hgate hp)
  have hstatus : 100 ≤ status ∧ status ≤ 999 := by omega
  rw [hanswer, Reply.classify_received (Reply.sendable_json hstatus.1 hstatus.2 _) hlow hhigh,
    ← hjob] at houtcome
  exact Operation.success_of_request hargs houtcome

/-- A client that the server takes uploads a file that was not there. -/
theorem exists_of_uploadNew (hb : BucketName b.name) (hname : name ≠ "")
    (hlocal : c.site.disk.read? localPath = some content) (hfits : content.length ≤ Call.maxBody)
    (htype : Printable contentType) (hnone : c.site.backend.store.file? b.name name = none)
    {cacheDisabled : Bool} (htakes : Takes fresh c now
      (Operation.uploadNewFile b name localPath contentType "" cacheDisabled).plan.steps) :
    ∃ m, (FileBucket.uploadNew (Backend.engine fresh) now b name localPath contentType ""
      cacheDisabled c).1 = .success m := by
  let o : Operation := .uploadNewFile b name localPath contentType "" cacheDisabled
  obtain ⟨hne, hfile⟩ := Disk.node?_of_read? hlocal
  have hargs : o.plan.refused? = none := by
    simp [o, Operation.plan, Operation.firstFailure, hname, hne, htype.full, hb.full]
  have hdraft : (c.service.draft now).applyAll o.plan.steps
      = uploadDraft (c.service.draft now) .post b.name name contentType
        (if cacheDisabled then [("cacheDisabled", "true")] else []) := by
    have hempty : Draft.isFull (HeaderName.acl, "") = false := by decide
    have hparam : Draft.isFull ("cacheDisabled", "true") = true := by decide
    rw [Draft.applyAll_of_complete htakes.missing?]
    simp only [o, Operation.plan, List.append_assoc, Draft.foldl_file, List.cons_append,
      List.nil_append, List.foldl_cons]
    rw [change_contentType _ rfl]
    cases cacheDisabled <;>
      simp [Draft.Step.optionalParam, Draft.change, hempty, hparam, uploadDraft, filePath,
        Service.draft]
  refine Outcome.exists_of_isSome_value? ((Operation.value?_isSome_forget _).symm.trans ?_)
  refine success_of_upload hb hname (o := o) hargs rfl htakes hdraft rfl (Or.inr htype) hfile
    (by decide : 200 ≤ 201) (by decide) ?_
  intro call token extra hcomes hextra hheaders
  have hfull : Draft.isFull (HeaderName.contentType, contentType) = true := by
    simp [Draft.isFull, HeaderName.contentType, htype.full]
  rw [List.filter_cons_of_pos hfull] at hheaders
  have hfirst : call.headers.header? HeaderName.contentType = some contentType := by
    rw [hheaders]
    exact Pairs.header?_cons_self ..
  have hsent : Files.contentType? call = some contentType := by
    rw [Files.contentType?, Call.header?, hfirst, Option.filter_some, htype.isReadable]
    simp [htype.full]
  obtain ⟨m, s', hp⟩ := Files.perform_create hcomes.method (hcomes.body ▸ hfits) hsent
    (acl_of_headers hextra hheaders) hnone (fresh c.site.backend.calls)
  exact ⟨_, s', hp⟩

/-- A client that the server takes puts new content in place of what a file has, if it asks for no
etags. -/
theorem exists_of_uploadUpdate (hb : BucketName b.name) (hname : name ≠ "")
    (hlocal : c.site.disk.read? localPath = some content) (hfits : content.length ≤ Call.maxBody)
    (htype : contentType = "" ∨ Printable contentType) {old : Bytes}
    (hold : c.site.backend.store.Offers b.name name old)
    (htakes : Takes fresh c now
      (Operation.uploadFile b name localPath contentType "" "").plan.steps) :
    ∃ m, (FileBucket.uploadUpdate (Backend.engine fresh) now b name localPath contentType "" "" c).1
      = .success m := by
  let o : Operation := .uploadFile b name localPath contentType "" ""
  obtain ⟨hne, hfile⟩ := Disk.node?_of_read? hlocal
  have hargs : o.plan.refused? = none := by
    simp [o, Operation.plan, Operation.plan.uploadPlan, Operation.firstFailure, hname, hne, hb.full]
  have hdraft : (c.service.draft now).applyAll o.plan.steps
      = uploadDraft (c.service.draft now) .put b.name name contentType [] := by
    have hmeta : Draft.isFull (FileBucket.metaEtagKey, "") = false := by decide
    have hetag : Draft.isFull (FileBucket.fileEtagKey, "") = false := by decide
    rw [Draft.applyAll_of_complete htakes.missing?]
    simp only [o, Operation.plan, Operation.plan.uploadPlan, Draft.foldl_file, List.foldl_cons]
    rw [change_contentType _ rfl]
    simp [FileBucket.etagParams, Draft.change, hmeta, hetag, uploadDraft, filePath, Service.draft]
  refine Outcome.exists_of_isSome_value? ((Operation.value?_isSome_forget _).symm.trans ?_)
  refine success_of_upload hb hname (o := o) hargs rfl htakes hdraft rfl htype hfile
    (Nat.le_refl 200) (by decide) ?_
  intro call token extra hcomes hextra hheaders
  have hleads := leads_file (d := uploadDraft (c.service.draft now) .put b.name name contentType [])
    hb hname rfl rfl
  obtain ⟨raw, hraw, -⟩ := hcomes.arrives hleads
  have hparams : call.params = [] := hcomes.params htakes.atServer hleads.path hraw
  obtain ⟨old, hstored, -⟩ := hold.stored
  obtain ⟨m, s', hp⟩ := Files.perform_update hcomes.method (hcomes.body ▸ hfits) hparams hstored
    (fresh c.site.backend.calls)
  exact ⟨_, s', hp⟩

end

/-- What a client uploads under a name that was free is kept by the server; and from a server that
keeps a file every client that it takes downloads the file unchanged, wherever it can write. Only in
one bucket every download fails. -/
theorem upload_then_download {fresh : Nat → Fresh} {b : Bucket} (hb : BucketName b.name)
    {name : String} (hname : name ≠ "") :
    (∀ (c : Client Unit Backend) (now : Int) (localPath contentType : String)
        (cacheDisabled : Bool) (content : Bytes),
      c.site.disk.read? localPath = some content → content.length ≤ Call.maxBody →
      Printable contentType → c.site.backend.store.file? b.name name = none →
      Takes fresh c now
        (Operation.uploadNewFile b name localPath contentType "" cacheDisabled).plan.steps →
      let r := FileBucket.uploadNew (Backend.engine fresh) now b name localPath contentType ""
        cacheDisabled c
      (∃ m, r.1 = .success m) ∧ Keeps fresh b.name name content r.2.site.backend) ∧
    ∀ (content : Bytes) (reader : Client Unit Backend) (later : Int) (localPath : String),
      Keeps fresh b.name name content reader.site.backend →
      Takes fresh reader later (Operation.downloadFile b name localPath).plan.steps →
      reader.site.disk.Writable localPath content.length →
      let r := FileBucket.download (Backend.engine fresh) later b name localPath reader
      r.1 = (if b.name = Files.truncatedBucket then .fatal .downloadLength
          else .success content.length) ∧
        r.2.site.disk.read? localPath = some content := by
  refine ⟨?_, ?_⟩
  · intro c now localPath contentType cacheDisabled content hlocal hfits htype hnone htakes r
    obtain ⟨m, hm⟩ := exists_of_uploadNew hb hname hlocal hfits htype hnone htakes
    exact ⟨⟨m, hm⟩, .uploaded htakes.atServer hlocal hm⟩
  · intro content reader later localPath hkeeps htakes hwritable
    exact download_of_offers hb hname (offers_of_keeps hb hname hkeeps) htakes hwritable

/-- A file under a name that has to be coded is uploaded, gets new content from a client that asks
for no etags, and is downloaded over a longer local file; calls about another file come in
between. -/
theorem upload_then_download_of_update :
    let service : Service Unit :=
      ⟨⟨"http://mock", "tenant", "app-id", "app-key", ""⟩, {}, {}, .new 1 1, 60⟩
    let disk : Disk := { nodes := [(["old"], .file [1]), (["new"], .file [0, 255, 10]),
      (["copy"], .file [5, 5, 5, 5])] }
    let b : Bucket := ⟨"t", 5⟩
    let name := "a/b ä%"
    let other : Call := ⟨"POST", "/1/tenant/files/t/other", "",
      [("X-Application-Id", "app-id"), ("X-Application-Key", "app-key"),
        ("Content-Type", "text/plain")], [1, 2]⟩
    let first := FileBucket.uploadNew (Backend.engine numbered) 0 b name "old" "text/plain" "" false
      ⟨service, ⟨disk, {}⟩⟩
    let second := FileBucket.uploadUpdate (Backend.engine numbered) 0 b name "new" "" "" ""
      ⟨service, ⟨disk, first.2.site.backend.answerAll numbered [other]⟩⟩
    let read := FileBucket.download (Backend.engine numbered) 0 b name "copy"
      ⟨service, ⟨disk, second.2.site.backend.answerAll numbered [other]⟩⟩
    (∃ m, first.1 = .success m) ∧ (∃ m, second.1 = .success m) ∧ read.1 = .success 3 ∧
      read.2.site.disk.read? "copy" = some [0, 255, 10] := by
  intro service disk b name other
  have hserver : service.credentials.AtServer := by decide +kernel
  have hb : BucketName b.name := ⟨by decide, by decide⟩
  have htakes (steps : List Draft.Step) (backend : Backend)
      (h : (Target.ofText? ((service.draft 0).applyAll steps).url).isSome = true) :
      Takes numbered ⟨service, ⟨disk, backend⟩⟩ 0 steps :=
    takes_of_no_session hserver rfl rfl rfl h nofun
  have hothers : ∀ call ∈ [other], call.entry? ≠ some (.file, b.name, name) := by decide +kernel
  obtain ⟨hupload, hdownload⟩ := @upload_then_download numbered b hb name (by decide)
  obtain ⟨hfirst, hkeeps⟩ := hupload ⟨service, ⟨disk, {}⟩⟩ 0 "old" "text/plain" false [1]
    (by decide +kernel) (by decide) ⟨by decide, by simp, by decide⟩ rfl
    (htakes _ _ (by decide +kernel))
  generalize FileBucket.uploadNew (Backend.engine numbered) 0 b name "old" "text/plain" "" false
    ⟨service, ⟨disk, {}⟩⟩ = first at hfirst hkeeps ⊢
  dsimp only
  have hthere := hkeeps.answerAll hothers
  have hnew : disk.read? "new" = some [0, 255, 10] := by decide +kernel
  obtain ⟨m, hm⟩ := exists_of_uploadUpdate hb (by decide) hnew (by decide)
    (Or.inl rfl) (offers_of_keeps hb (by decide) hthere)
    (htakes (Operation.uploadFile b name "new" "" "" "").plan.steps
      (first.2.site.backend.answerAll numbered [other]) (by decide +kernel))
  have hagain := (Keeps.updated hthere hserver hnew hm).answerAll hothers
  generalize FileBucket.uploadUpdate (Backend.engine numbered) 0 b name "new" "" "" ""
    ⟨service, ⟨disk, first.2.site.backend.answerAll numbered [other]⟩⟩ = second at hm hagain ⊢
  have hopens : (disk.write? "copy" []).isSome = true := by decide +kernel
  obtain ⟨hread, hcopy⟩ := hdownload [0, 255, 10]
    ⟨service, ⟨disk, second.2.site.backend.answerAll numbered [other]⟩⟩ 0 "copy" hagain
    (htakes _ _ (by decide +kernel)) ⟨by decide, hopens, nofun⟩
  rw [if_neg (by decide)] at hread
  exact ⟨hfirst, ⟨m, hm⟩, hread, hcopy⟩

/-- A bucket without a name takes no file, though all else is as an upload needs it. -/
theorem unnamed_bucket_takes_no_file :
    let service : Service Unit :=
      ⟨⟨"http://mock", "tenant", "app-id", "app-key", ""⟩, {}, {}, .new 1 1, 60⟩
    let disk : Disk := { nodes := [(["new"], .file [118, 49])] }
    let c : Client Unit Backend := ⟨service, ⟨disk, {}⟩⟩
    let b : Bucket := ⟨"", 5⟩
    let r := FileBucket.uploadNew (Backend.engine numbered) 0 b "f" "new" "text/plain" "" false c
    Unreserved b.name ∧ c.site.disk.read? "new" = some [118, 49] ∧ Printable "text/plain" ∧
      c.site.backend.store.file? b.name "f" = none ∧
      Takes numbered c 0
        (Operation.uploadNewFile b "f" "new" "text/plain" "" false).plan.steps ∧
      r.1 = .fatal .noBucket ∧
      (FileBucket.download (Backend.engine numbered) 0 b "f" "copy" r.2).1 = .fatal .noBucket := by
  intro service disk c b r
  have hserver : service.credentials.AtServer := by decide +kernel
  have htype : Printable "text/plain" := ⟨by decide, by simp, by decide⟩
  exact ⟨by decide, by decide +kernel, htype, rfl,
    takes_of_no_session hserver rfl rfl rfl (by decide +kernel) nofun, rfl, rfl⟩

end Server
end AppBackend
