import AppBackend.Proofs.Client.Operation
import AppBackend.Proofs.Transfer.Streaming
import AppBackend.Transfer.Replay
import Mathlib.Algebra.Group.Nat.Defs

/-!
# Verified downloads

What a download has to show before it counts: the engine reports no error, the last status line has
a code of success, and the first length header after it declares as many octets as are in the file.
The executor goes by its own count of octets and by what the download kept; here all is said of the
events and of the disk afterwards. Main statement: `download_succeeds_iff_verified`.
-/

namespace AppBackend

variable {ε ω : Type}

/-- How many octets are found at a path. The device that takes none has none. -/
def Disk.length? (d : Disk) (path : String) : Option Nat :=
  if path = fullDevice then some 0 else (d.read? path).map List.length

/-- The last status line among events has a code of success. -/
def HasSuccessCode (es : List Event) : Prop :=
  ∃ line after, Transcript.lastStatus? (headerLines es) = some (line, after) ∧
    200 ≤ StatusLine.code line ∧ StatusLine.code line ≤ 299

/-- The first length header after the last status line spells a number of 64 bits. -/
def DeclaresLength (es : List Event) (length : Nat) : Prop :=
  ∃ line after value, Transcript.lastStatus? (headerLines es) = some (line, after) ∧
    Pairs.header? (after.filterMap headerOfLine?) HeaderName.fileLength = some value ∧
    Numeral.read? (2 ^ 64) (Text.trimBlank value.toList) = some length

/-! ### Reading the reply -/

namespace Transcript

variable {t : Transcript} {es : List Event}

theorem isSuccess_response_iff (h : t.lines = headerLines es) :
    t.response.isSuccess = true ↔ HasSuccessCode es := by
  simp only [Response.isSuccess, Bool.and_eq_true, decide_eq_true_eq, response_status, status, h,
    HasSuccessCode]
  cases lastStatus? (headerLines es) with
  | none => simp
  | some found =>
    obtain ⟨line, after⟩ := found
    constructor
    · rintro ⟨hlow, hhigh⟩
      exact ⟨line, after, rfl, hlow, Nat.le_of_lt_succ hhigh⟩
    · rintro ⟨_, _, he, hlow, hhigh⟩
      cases he
      exact ⟨hlow, Nat.lt_succ_of_le hhigh⟩

theorem declaredLength?_response_iff (h : t.lines = headerLines es) (n : Nat) :
    declaredLength? t.response = some n ↔ DeclaresLength es n := by
  simp only [declaredLength?, Response.header?, response, h, DeclaresLength]
  cases lastStatus? (headerLines es) with
  | none => simp [Pairs.header?]
  | some found =>
    obtain ⟨line, after⟩ := found
    constructor
    · intro hd
      obtain ⟨value, hvalue, hn⟩ := Option.bind_eq_some_iff.1 hd
      exact ⟨line, after, value, rfl, hvalue, hn⟩
    · rintro ⟨_, _, value, he, hvalue, hn⟩
      cases he
      exact Option.bind_eq_some_iff.2 ⟨value, hvalue, hn⟩

end Transcript

/-! ### The outcome -/

theorem classify_eq_success_iff {ending : Except TransferError Unit} {r r' : Response} :
    classify ending r = .success r' ↔ ending = .ok () ∧ r.isSuccess = true ∧ r' = r := by
  unfold classify
  cases ending with
  | ok =>
    dsimp only
    split
    · rename_i h
      simp [Response.isSuccess, h]
    split
    · rename_i h
      simp [h, eq_comm]
    · rename_i h
      simp [h]
  | error e =>
    dsimp only
    split
    · simp
    · rename_i h
      have hfail : r.isSuccess = false := by simp [Response.isSuccess, h]
      rw [hfail]
      split <;> simp

/-- Without an error nothing was refused, and the engine had nothing to report. -/
theorem Exchange.acceptAll_of_receive {x : Exchange} {d : Download}
    (h : (x.receive d).2 = .ok ()) : d.acceptAll x.events = ((x.receive d).1, true) := by
  unfold receive at h ⊢
  split at h
  · rename_i next ha
    rw [ha]
  · simp at h

namespace Download

theorem accept_fullDevice {d : Download} (h : d.destination = .fullDevice) (e : Event) :
    (d.accept e).1.destination = .fullDevice := by
  cases e with
  | header line => exact h
  | chunk bytes =>
    simp only [accept]
    split
    · rw [h]
      split
      · rename_i ha
        exact (Prod.mk.inj ha).1.symm
      · rename_i ha
        exact (Prod.mk.inj ha).1.symm
    · exact h

theorem acceptAll_fullDevice {d : Download} (h : d.destination = .fullDevice) (es : List Event) :
    (d.acceptAll es).1.destination = .fullDevice := by
  induction es generalizing d with
  | nil => exact h
  | cons e es ih =>
    have he := accept_fullDevice h e
    rw [acceptAll]
    split
    · rename_i next ha
      rw [ha] at he
      exact ih he
    · rename_i next ha
      rw [ha] at he
      exact he

end Download

theorem Exchange.destination_receive (x : Exchange) (d : Download) :
    (x.receive d).1.destination = (d.acceptAll x.events).1.destination := by
  unfold receive
  split
  · rename_i ha
    rw [ha]
  · rename_i ha
    rw [ha]

namespace Executor

/-! ### The file -/

theorem content_of_openDestination {d disk : Disk} {path : String} {destination : Destination}
    (h : openDestination? d path = some (destination, disk)) : destination.content = [] := by
  unfold openDestination? at h
  split at h
  · rw [← (Prod.mk.inj (Option.some.inj h)).1]
    rfl
  · obtain ⟨next, -, hpair⟩ := Option.map_eq_some_iff.1 h
    rw [← (Prod.mk.inj hpair).1]
    rfl

/-- What a destination holds in the end is what is found at its path. -/
theorem length?_store {d disk : Disk} {path : String} {destination final : Destination}
    (h : openDestination? d path = some (destination, disk))
    (hdevice : destination = .fullDevice → final = .fullDevice) :
    (store disk path final).length? path = some final.content.length := by
  unfold openDestination? at h
  split at h
  · rename_i hpath
    rw [hdevice (Prod.mk.inj (Option.some.inj h)).1.symm, Disk.length?, if_pos hpath]
    rfl
  · rename_i hpath
    obtain ⟨next, hwrite, hpair⟩ := Option.map_eq_some_iff.1 h
    obtain rfl : next = disk := (Prod.mk.inj hpair).2
    rw [Disk.length?, if_neg hpath]
    cases final with
    | file content =>
      obtain ⟨last, hlast⟩ :=
        Option.isSome_iff_exists.1 (Disk.isSome_write?_of_write? hwrite content)
      rw [store, hlast, Option.getD_some, Disk.read?_write? hlast]
      rfl
    | fullDevice =>
      rw [store, Disk.read?_write? hwrite]
      rfl

/-! ### The whole download -/

/-- A download from a destination that was opened, once its engine is done. -/
theorem run_download (e : Engine ε ω) (x : Executor ε) {r : Request} (hget : r.method = .get)
    {path : String} (timeout : Int) {s : Site ω} {destination : Destination} {disk : Disk}
    (hopen : openDestination? s.disk path = some (destination, disk)) :
    let reported := (e.perform disk ⟨r, effectiveTimeout timeout, none⟩ x.engine s.backend).1
    let received := reported.receive ((Download.begin destination).within disk.room)
    let result := run e x (.download path) r timeout s
    result.1 = verify received.1.written (classify received.2 received.1.response) ∧
      result.2.2.disk.length? path = some received.1.destination.content.length := by
  intro reported received result
  have hdevice : destination = .fullDevice → received.1.destination = .fullDevice := by
    intro hd
    rw [Exchange.destination_receive]
    exact Download.acceptAll_fullDevice hd _
  have hlength := length?_store hopen hdevice
  have hresult : result = runDownload e x r path (effectiveTimeout timeout) s := rfl
  rw [hresult, runDownload, hopen]
  dsimp only
  rw [if_pos hget]
  exact ⟨rfl, hlength⟩

theorem opened_of_success {e : Engine ε ω} {x : Executor ε} {r : Request} {path : String}
    {timeout : Int} {s : Site ω} {reply : Response}
    (h : (run e x (.download path) r timeout s).1 = .success reply) :
    r.method = .get ∧
      ∃ destination disk, openDestination? s.disk path = some (destination, disk) := by
  have hrun : (run e x (.download path) r timeout s)
      = runDownload e x r path (effectiveTimeout timeout) s := rfl
  rw [hrun, runDownload] at h
  cases ho : openDestination? s.disk path with
  | none => simp [ho] at h
  | some opened =>
    rw [ho] at h
    dsimp only at h
    split at h
    · rename_i hget
      exact ⟨hget, opened.1, opened.2, rfl⟩
    · simp at h

/-- A transfer that ended well with a code of success is checked for its length; any other outcome
is left as it is, and is no success. -/
theorem verify_classify_cases (n : Nat) (ending : Except TransferError Unit) (r : Response) :
    (ending = .ok () ∧ r.isSuccess = true ∧
        verify n (classify ending r)
          = if declaredLength? r = some n then .success r else .fatal .downloadLength) ∨
      (¬ (ending = .ok () ∧ r.isSuccess = true) ∧
        verify n (classify ending r) = classify ending r ∧
        ∀ reply, classify ending r ≠ .success reply) := by
  by_cases h : ending = .ok () ∧ r.isSuccess = true
  · have hclass : classify ending r = .success r := classify_eq_success_iff.2 ⟨h.1, h.2, rfl⟩
    exact Or.inl ⟨h.1, h.2, by rw [hclass]; rfl⟩
  · have hno : ∀ reply, classify ending r ≠ .success reply := by
      intro reply hs
      obtain ⟨hok, hsuccess, -⟩ := classify_eq_success_iff.1 hs
      exact h ⟨hok, hsuccess⟩
    refine Or.inr ⟨h, ?_, hno⟩
    cases hc : classify ending r with
    | success reply => exact absurd hc (hno reply)
    | rest error => rfl
    | fatal f => rfl

theorem follows_receive {d disk : Disk} {path : String} {destination : Destination}
    (hopen : openDestination? d path = some (destination, disk)) {x : Exchange} {room : Option Nat}
    (h : (x.receive ((Download.begin destination).within room)).2 = .ok ()) :
    (x.receive ((Download.begin destination).within room)).1.Follows x.events :=
  (Download.follows_begin (content_of_openDestination hopen) room).acceptAll
    (Exchange.acceptAll_of_receive h)

/-- The three ways in which a download from a destination that was opened can end. -/
theorem run_download_cases (e : Engine ε ω) (x : Executor ε) {r : Request} (hget : r.method = .get)
    {path : String} (timeout : Int) {s : Site ω} {destination : Destination} {disk : Disk}
    (hopen : openDestination? s.disk path = some (destination, disk)) :
    let reported := (e.perform disk ⟨r, effectiveTimeout timeout, none⟩ x.engine s.backend).1
    let received := reported.receive ((Download.begin destination).within disk.room)
    let result := run e x (.download path) r timeout s
    let complete := received.2 = .ok () ∧ HasSuccessCode reported.events
    let lengthFits := ∃ n, DeclaresLength reported.events n ∧
      result.2.2.disk.length? path = some n
    (complete ∧ lengthFits ∧ result.1 = classify received.2 received.1.response ∧
        ∃ reply, result.1 = .success reply) ∨
      (complete ∧ ¬ lengthFits ∧ result.1 = .fatal .downloadLength) ∨
      (¬ complete ∧ result.1 = classify received.2 received.1.response ∧
        ∀ reply, result.1 ≠ .success reply) := by
  intro reported received result complete lengthFits
  obtain ⟨hresult, hlength⟩ := run_download e x hget timeout hopen
  have hresult : result.1 = verify received.1.written (classify received.2 received.1.response) :=
    hresult
  have hlength : result.2.2.disk.length? path = some received.1.destination.content.length :=
    hlength
  have hfollows (hok : received.2 = .ok ()) : received.1.Follows reported.events :=
    follows_receive hopen hok
  have hcode (hok : received.2 = .ok ()) :
      received.1.response.isSuccess = true ↔ HasSuccessCode reported.events :=
    Transcript.isSuccess_response_iff (hfollows hok).lines
  have hfits (hok : received.2 = .ok ()) :
      declaredLength? received.1.response = some received.1.written ↔ lengthFits := by
    rw [Download.response, Transcript.declaredLength?_response_iff (hfollows hok).lines,
      (hfollows hok).written]
    constructor
    · intro hd
      exact ⟨_, hd, hlength⟩
    · rintro ⟨n, hd, hn⟩
      rw [hlength] at hn
      rwa [Option.some.inj hn]
  obtain ⟨hok, hsuccess, hverify⟩ | ⟨hnot, hsame, hno⟩ :=
    verify_classify_cases received.1.written received.2 received.1.response
  · have hcomplete : complete := ⟨hok, (hcode hok).1 hsuccess⟩
    by_cases hl : lengthFits
    · have hfinal : result.1 = .success received.1.response := by
        rw [hresult, hverify, if_pos ((hfits hok).2 hl)]
      have hclass := (classify_eq_success_iff.2 ⟨hok, hsuccess, rfl⟩).symm
      exact Or.inl ⟨hcomplete, hl, hfinal.trans hclass, _, hfinal⟩
    · refine Or.inr (Or.inl ⟨hcomplete, hl, ?_⟩)
      rw [hresult, hverify, if_neg fun hd => hl ((hfits hok).1 hd)]
  · refine Or.inr (Or.inr ⟨fun hc => hnot ⟨hc.1, (hcode hc.1).2 hc.2⟩, ?_, ?_⟩)
    · rw [hresult, hsame]
    · rw [hresult, hsame]
      exact hno

theorem length_of_success {e : Engine ε ω} {x : Executor ε} {r : Request} {path : String}
    {timeout : Int} {s : Site ω} {reply : Response}
    (h : (run e x (.download path) r timeout s).1 = .success reply) :
    ∃ n, declaredLength? reply = some n ∧
      (run e x (.download path) r timeout s).2.2.disk.length? path = some n := by
  obtain ⟨hget, destination, disk, hopen⟩ := opened_of_success h
  obtain ⟨hresult, hlength⟩ := run_download e x hget timeout hopen
  rw [hresult] at h
  obtain ⟨hok, -, hverify⟩ | ⟨-, hsame, hno⟩ := verify_classify_cases _ _ _
  · rw [hverify] at h
    split at h
    · rename_i hdeclared
      refine ⟨_, by rw [← Outcome.success.inj h, hdeclared], ?_⟩
      rw [hlength, (follows_receive hopen hok).written]
    · simp at h
  · rw [hsame] at h
    exact absurd h (hno reply)

end Executor

/-- The length that the download of a file from a bucket tells is that of the file now there. -/
theorem FileBucket.length_of_download {e : Engine ε ω} {now : Int} {b : Bucket}
    {name localPath : String} {c : Client ε ω} {n : Nat}
    (h : (download e now b name localPath c).1 = .success n) :
    (download e now b name localPath c).2.site.disk.length? localPath = some n := by
  unfold download at h ⊢
  split
  · rename_i harg
    simp [harg] at h
  rename_i harg
  split
  · rename_i hbucket
    simp [harg, hbucket] at h
  rename_i hbucket
  rw [if_neg harg, if_neg hbucket] at h
  dsimp only at h ⊢
  obtain ⟨f, hf⟩ | ⟨-, x, seconds, hout, hsite⟩ :=
    c.request_cases e now (target .get b name) (.download localPath) b.timeout
  · rw [hf] at h
    simp [Outcome.map] at h
  rw [hout] at h
  rw [hsite]
  cases hrun : (x.run e (.download localPath)
      ((c.service.draft now).applyAll (target .get b name)).build seconds c.site).1 with
  | success reply =>
    rw [hrun] at h
    have hn : (declaredLength? reply).getD 0 = n := Outcome.success.inj h
    obtain ⟨m, hdeclared, hlength⟩ := Executor.length_of_success hrun
    rw [hdeclared, Option.getD_some] at hn
    rw [hlength, hn]
  | rest error =>
    rw [hrun] at h
    cases h
  | fatal f =>
    rw [hrun] at h
    cases h

/-! ### What counts -/

open Executor in
/-- A download into a destination that can be opened, whatever was there, succeeds just when the
engine reports no error, the last status line has a code of success, and the length declared after
it is that of the file now there. If only the length is wrong or missing, that is the failure; in
any other case the outcome is that of the transfer and of the reply that was kept. An engine that
has a chunk refused ends with a broken transfer. What the download of a file from a bucket tells is
the length of the file now there. -/
theorem download_succeeds_iff_verified (e : Engine ε ω) (x : Executor ε) {r : Request}
    (hget : r.method = .get) {path : String} (timeout : Int) {s : Site ω}
    {destination : Destination} {disk : Disk}
    (hopen : openDestination? s.disk path = some (destination, disk)) :
    let reported := (e.perform disk ⟨r, effectiveTimeout timeout, none⟩ x.engine s.backend).1
    let received := reported.receive ((Download.begin destination).within disk.room)
    let result := run e x (.download path) r timeout s
    let lengthFits := ∃ n, DeclaresLength reported.events n ∧
      result.2.2.disk.length? path = some n
    ((∃ reply, result.1 = .success reply) ↔
      received.2 = .ok () ∧ HasSuccessCode reported.events ∧ lengthFits) ∧
    (received.2 = .ok () → HasSuccessCode reported.events → ¬ lengthFits →
      result.1 = .fatal .downloadLength) ∧
    (¬ (received.2 = .ok () ∧ HasSuccessCode reported.events ∧ ¬ lengthFits) →
      result.1 = classify received.2 received.1.response) ∧
    ∀ (e : Engine ε ω) (now : Int) (b : Bucket) (name localPath : String) (c : Client ε ω)
      (n : Nat),
      (FileBucket.download e now b name localPath c).1 = .success n →
      (FileBucket.download e now b name localPath c).2.site.disk.length? localPath = some n := by
  intro reported received result lengthFits
  have hbucket : ∀ (e : Engine ε ω) (now : Int) (b : Bucket) (name localPath : String)
      (c : Client ε ω) (n : Nat), (FileBucket.download e now b name localPath c).1 = .success n →
      (FileBucket.download e now b name localPath c).2.site.disk.length? localPath = some n :=
    fun e now b name localPath c n => FileBucket.length_of_download
  obtain ⟨hcomplete, hl, hresult, hsuccess⟩ | ⟨hcomplete, hl, hresult⟩ | ⟨hnot, hresult, hno⟩ :=
    run_download_cases e x hget timeout hopen
  · exact ⟨⟨fun _ => ⟨hcomplete.1, hcomplete.2, hl⟩, fun _ => hsuccess⟩,
      fun _ _ h => absurd hl h, fun _ => hresult, hbucket⟩
  · refine ⟨⟨?_, fun h => absurd h.2.2 hl⟩, fun _ _ _ => hresult,
      fun h => absurd ⟨hcomplete.1, hcomplete.2, hl⟩ h, hbucket⟩
    rintro ⟨reply, hreply⟩
    cases hresult.symm.trans hreply
  · refine ⟨⟨?_, fun h => absurd ⟨h.1, h.2.1⟩ hnot⟩, fun hok hc _ => absurd ⟨hok, hc⟩ hnot,
      fun _ => hresult, hbucket⟩
    rintro ⟨reply, hreply⟩
    exact absurd hreply (hno reply)

/-- Three octets come where five were, and three are declared, with a plus sign and blanks. -/
theorem download_succeeds_iff_verified_of_stale :
    let lines := ["HTTP/1.1 200 OK\r\n", "x-content-length:  +3 \r\n"]
    let es : List Event := lines.map .header ++ [.chunk [97], .chunk [98, 99]]
    let s : Site Replay := ⟨⟨[(["out"], .file [0, 0, 0, 0, 0])], some 3⟩, ⟨⟨es, .ok ()⟩, []⟩⟩
    let result := Executor.run Replay.engine (.standalone ()) (.download "out") {} 5 s
    s.disk.length? "out" = some 5 ∧ result.2.2.disk.length? "out" = some 3 ∧
      ∃ reply, result.1 = .success reply := by
  intro lines es s result
  have hopen : Executor.openDestination? s.disk "out"
      = some (.file [], ⟨[(["out"], .file [])], some 3⟩) := by decide +kernel
  have hlast : Transcript.lastStatus? (headerLines es)
      = some ("HTTP/1.1 200 OK\r\n", ["x-content-length:  +3 \r\n"]) := by decide +kernel
  have hcode : StatusLine.code "HTTP/1.1 200 OK\r\n" = 200 := by decide +kernel
  have hvalue : Pairs.header? (["x-content-length:  +3 \r\n"].filterMap headerOfLine?)
      HeaderName.fileLength = some "+3 " := by decide +kernel
  have hlength : result.2.2.disk.length? "out" = some 3 := by decide +kernel
  have hsuccess : HasSuccessCode es := ⟨_, _, hlast, Nat.le_of_eq hcode.symm, by rw [hcode]; decide⟩
  have hdeclared : DeclaresLength es 3 := ⟨_, _, _, hlast, hvalue, by decide +kernel⟩
  refine ⟨by decide +kernel, hlength, ?_⟩
  exact (download_succeeds_iff_verified Replay.engine (.standalone ()) rfl 5 hopen).1.2
    ⟨by rfl, hsuccess, 3, hdeclared, hlength⟩

end AppBackend
