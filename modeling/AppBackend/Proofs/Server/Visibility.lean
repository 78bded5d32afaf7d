import AppBackend.Proofs.Server.FileListing
import AppBackend.Proofs.Server.ObjectIdentity

/-!
# Reads that agree

Queries, single reads, lists and downloads go their own ways to the same entries. What they show of
any store that calls have brought about is said by the entries alone. Main statements:
`mem_found_iff`, the objects that a query finds; `Evolves.inOrder`, what one call keeps; and
`reads_agree`.
-/

namespace AppBackend.Server

variable {s s' : Store} {f : Fresh} {c : Call} {bucket id : String} {fs : Json.Fields}

/-! ### Order -/

/-- The objects of every bucket stand in the order of their ids. -/
def Store.InOrder (s : Store) : Prop := ∀ bucket, Keyed.Ascending (s.objectsIn bucket)

theorem Store.InOrder.putObject (h : s.InOrder) (bucket id : String) (fs : Json.Fields) :
    (s.putObject bucket id fs).InOrder := by
  intro b
  rw [Store.objectsIn_putObject]
  split
  · exact (h bucket).insert id fs
  · exact h b

theorem Store.InOrder.removeObject (h : s.InOrder) (bucket id : String) :
    (s.removeObject bucket id).InOrder := by
  intro b
  rw [Store.objectsIn_removeObject]
  split
  · exact (h bucket).erase id
  · exact h b

theorem Evolves.inOrder (he : Evolves s f c s') (h : s.InOrder) : s'.InOrder := by
  cases he with
  | same hsame =>
    intro b
    rw [Store.objectsIn, hsame]
    exact h b
  | made | changed | marked => exact h.putObject _ _ _
  | removed bucket id => exact h.removeObject bucket id

theorem inOrder_answerAll {fresh : Nat → Fresh} {b : Backend} (h : b.store.InOrder)
    (calls : List Call) : (b.answerAll fresh calls).store.InOrder := by
  induction calls generalizing b with
  | nil => exact h
  | cons c calls ih =>
    rw [Backend.answerAll, List.foldl_cons, ← Backend.answerAll]
    exact ih ((evolves_answer b.store (fresh b.calls) c).inOrder h)

theorem inOrder_empty : Store.InOrder {} := fun _ => List.Pairwise.nil

theorem Store.InOrder.object?_eq_some_iff (h : s.InOrder) :
    s.object? bucket id = some fs ↔ (id, fs) ∈ s.objectsIn bucket :=
  (h bucket).get?_eq_some_iff

/-! ### Marks and conditions -/

theorem isDeleted_iff : isDeleted fs = true ↔ fs.get? Reserved.deleted = some (.bool true) := by
  unfold isDeleted
  split
  · rename_i b hb
    cases b <;> simp [hb]
  · rename_i hnot
    exact ⟨fun h => absurd h Bool.false_ne_true, fun h => absurd h (hnot true)⟩

theorem isVisible_iff {deletedToo : Bool} :
    isVisible deletedToo fs = true ↔
      (fs.get? Reserved.deleted = some (.bool true) → deletedToo = true) := by
  rw [← isDeleted_iff, isVisible]
  cases deletedToo <;> simp

namespace Objects

/-- The conditions that a call sets, as the text of an object; none are set without one. -/
def Asks (c : Call) (conditions : Json.Fields) : Prop :=
  (c.param? "where" = none ∧ conditions = []) ∨
    ∃ text, c.param? "where" = some text ∧ Json.ofString? text = some (.obj conditions)

theorem conditions_of_asks {conditions : Json.Fields} (h : Asks c conditions) :
    Objects.conditions c = .ok conditions := by
  unfold Objects.conditions
  obtain ⟨hnone, rfl⟩ | ⟨text, htext, hread⟩ := h
  · rw [hnone]
  · simp only [htext, hread]

theorem meets_iff {conditions : Json.Fields} :
    meets conditions fs = true ↔
      ∀ key v, (key, v) ∈ conditions → ∃ w, fs.get? key = some w ∧ w.same v = true := by
  rw [meets, List.all_eq_true]
  constructor
  · intro h key v hv
    have hmet := h (key, v) hv
    split at hmet
    · rename_i w hw
      exact ⟨w, hw, hmet⟩
    · cases hmet
  · rintro h ⟨key, v⟩ hv
    obtain ⟨w, hw, hsame⟩ := h key v hv
    simp only [hw, hsame]

/-! ### Queries -/

/-- The objects that a query finds, under their ids. -/
def found (s : Store) (bucket : String) (deletedToo : Bool) (conditions : Json.Fields) :
    Keyed Json.Fields :=
  (s.objectsIn bucket).filter fun p => isVisible deletedToo p.2 && meets conditions p.2

/-- Those of them that the limit of a call lets through. -/
def shown (c : Call) (found : Keyed Json.Fields) : Keyed Json.Fields := upTo (limit? c) found

/-- The reply to a query, with the count if it is asked for. -/
def page (counted : Bool) (count : Nat) (shown : Keyed Json.Fields) : Reply :=
  .json 200 (.obj ((if counted then [("count", .int count)] else [])
    ++ [("results", .arr (shown.values.map .obj))]))

theorem matching_eq (deletedToo : Bool) (conditions : Json.Fields) :
    matching (s.objectsIn bucket) deletedToo conditions
      = (found s bucket deletedToo conditions).values := by
  rw [matching, Keyed.values, List.filter_map]
  rfl

theorem upTo_values (limit : Option Nat) (objects : Keyed Json.Fields) :
    upTo limit (Keyed.values objects) = Keyed.values (upTo limit objects) := by
  cases limit with
  | none => rfl
  | some n => exact List.map_take.symm

theorem find_of_asks {conditions : Json.Fields} (h : Asks c conditions) :
    find s c bucket =
      let found := found s bucket (c.flag deleteMark) conditions
      .ok (page (c.flag "count") found.length (shown c found), s) := by
  rw [find, conditions_of_asks h]
  simp only [bind, Except.bind, pure, Except.pure, matching_eq, upTo_values]
  rw [page, shown, Keyed.values, List.length_map]

theorem mem_found_iff (h : s.InOrder) {deletedToo : Bool} {conditions : Json.Fields} :
    (id, fs) ∈ found s bucket deletedToo conditions ↔
      s.object? bucket id = some fs ∧
      (fs.get? Reserved.deleted = some (.bool true) → deletedToo = true) ∧
      ∀ key v, (key, v) ∈ conditions → ∃ w, fs.get? key = some w ∧ w.same v = true := by
  rw [found, List.mem_filter, Bool.and_eq_true, isVisible_iff, meets_iff, h.object?_eq_some_iff]

theorem upTo_isPrefix_upTo {α : Type} {fewer more : Option Nat}
    (h : ∀ n, more = some n → ∃ m, fewer = some m ∧ m ≤ n) (items : List α) :
    upTo fewer items <+: upTo more items := by
  cases more with
  | none => exact upTo_isPrefix fewer items
  | some n =>
    obtain ⟨m, rfl, hle⟩ := h n rfl
    exact List.take_prefix_take_left hle

theorem read_eq_ok_iff (hfs : s.object? bucket id = some fs) :
    read s c bucket id = .ok (.json 200 (.obj fs), s) ↔
      isVisible (c.flag deleteMark) fs = true := by
  have hlook : lookUp s bucket id = .ok fs := by rw [lookUp, hfs]
  rw [read, hlook]
  cases hv : isVisible (c.flag deleteMark) fs <;>
    simp [bind, Except.bind, pure, Except.pure, throw, throwThe, MonadExceptOf.throw, hv]

end Objects

/-! ### Downloads -/

namespace Files

theorem exists_read_iff {name : String} :
    (∃ headers content, read s bucket name = .ok (⟨200, headers, content⟩, s)) ↔
      ∃ file, s.file? bucket name = some file ∧ isVisible false file.metadata = true := by
  unfold read
  cases hfile : s.file? bucket name with
  | none =>
    have hlook : lookUp s bucket name = .error .notFound := by rw [lookUp, hfile]
    simp [hlook, bind, Except.bind]
  | some file =>
    have hlook : lookUp s bucket name = .ok file := by rw [lookUp, hfile]
    rw [hlook]
    cases hd : isDeleted file.metadata <;>
      simp [isVisible, bind, Except.bind, pure, Except.pure, throw, throwThe,
        MonadExceptOf.throw, hd]

theorem mem_listing_iff (h : s.Recorded) {mark : Bool} {name : String} :
    (∃ m ∈ listing (s.filesIn bucket) mark false, m.get? "filename" = some (.str name)) ↔
      ∃ file, s.file? bucket name = some file ∧ isVisible mark file.metadata = true := by
  rw [listing_all]
  constructor
  · -- what is listed are metadata, and these name the file that they are kept under
    rintro ⟨m, hm, hname⟩
    obtain ⟨p, hp, rfl⟩ := List.mem_map.1 hm
    obtain ⟨hp, hvisible⟩ := List.mem_filter.1 hp
    obtain ⟨hfile, hrecorded⟩ := recorded_of_mem h hp
    rw [hrecorded.filename] at hname
    obtain rfl : p.1 = name := Json.str.inj (Option.some.inj hname)
    exact ⟨p.2, hfile, hvisible⟩
  · rintro ⟨file, hfile, hvisible⟩
    have hp : (name, file) ∈ s.filesIn bucket := Keyed.mem_of_get? hfile
    exact ⟨file.metadata, List.mem_map_of_mem (List.mem_filter.2 ⟨hp, hvisible⟩),
      (h.each bucket name file hfile).filename⟩

end Files

/-! ### Agreement -/

/-- In every store that calls have brought about, for each bucket and whether or not the mark of
deletion is passed over. A query with conditions that can be read shows the objects that meet them,
in the order of their ids, up to its limit; it counts them before that, and a smaller limit shows
the first of what a larger one shows. Without conditions it finds an object just when a single read
gives it. A file can be downloaded just when the list of all files that are not marked names it. -/
theorem reads_agree (fresh : Nat → Fresh) (calls : List Call) (bucket : String) (mark : Bool) :
    let s := (Backend.answerAll fresh calls {}).store
    (∀ conditions : Json.Fields,
      let found := Objects.found s bucket mark conditions
      Keyed.Ascending found ∧
      (∀ id fs, (id, fs) ∈ found ↔ s.object? bucket id = some fs ∧
        (fs.get? Reserved.deleted = some (.bool true) → mark = true) ∧
        ∀ key v, (key, v) ∈ conditions → ∃ w, fs.get? key = some w ∧ w.same v = true) ∧
      (∀ c, Objects.Asks c conditions → c.flag deleteMark = mark →
        Objects.find s c bucket
          = .ok (Objects.page (c.flag "count") found.length (Objects.shown c found), s)) ∧
      (∀ c, (∀ n, Objects.limit? c = some n → Objects.shown c found = found.take n) ∧
        (Objects.limit? c = none → Objects.shown c found = found)) ∧
      ∀ c c', (∀ n, Objects.limit? c' = some n → ∃ m, Objects.limit? c = some m ∧ m ≤ n) →
        Objects.shown c found <+: Objects.shown c' found) ∧
    (∀ c id fs, c.flag deleteMark = mark → s.object? bucket id = some fs →
      ((id, fs) ∈ Objects.found s bucket mark [] ↔
        Objects.read s c bucket id = .ok (.json 200 (.obj fs), s))) ∧
    ∀ c, c.flag deleteMark = false → c.flag "published" = false →
      ∃ listed : List Json.Fields,
        Files.list s c bucket = .ok (.json 200 (.obj [("results", .arr (listed.map .obj))]), s) ∧
        ∀ name, (∃ headers content,
            Files.read s bucket name = .ok (⟨200, headers, content⟩, s)) ↔
          ∃ m ∈ listed, m.get? "filename" = some (.str name) := by
  intro s
  have horder : s.InOrder := inOrder_answerAll inOrder_empty calls
  have hrecorded : s.Recorded := recorded_answerAll recorded_empty calls
  refine ⟨fun conditions => ⟨?_, ?_, ?_, ?_, ?_⟩, ?_, ?_⟩
  · exact (horder bucket).filter _
  · exact fun id fs => Objects.mem_found_iff horder
  · intro c hasks hmark
    rw [Objects.find_of_asks hasks, hmark]
  · exact fun c => ⟨fun n hn => by rw [Objects.shown, hn]; rfl,
      fun hn => by rw [Objects.shown, hn]; rfl⟩
  · exact fun c c' hlimits => Objects.upTo_isPrefix_upTo hlimits _
  · intro c id fs hmark hfs
    rw [Objects.read_eq_ok_iff hfs, Objects.mem_found_iff horder, hmark, isVisible_iff]
    exact ⟨fun h => h.2.1, fun h => ⟨hfs, h, fun key v hv => by cases hv⟩⟩
  · intro c hmark hpublished
    refine ⟨Files.listing (s.filesIn bucket) false false, ?_, fun name => ?_⟩
    · rw [Files.list, hmark, hpublished]
    · rw [Files.exists_read_iff, Files.mem_listing_iff hrecorded]

/-- Of three objects one is marked and one does not meet the condition; one of two files is
marked. -/
theorem reads_agree_of_marked :
    let headers : Pairs := [("X-Application-Id", "app-id"), ("X-Application-Key", "app-key"),
      ("Content-Type", "application/json")]
    let calls : List Call := [
      ⟨"POST", "/1/tenant/objects/t", "", headers, Utf8.ofString "\x7b\"a\":1\x7d"⟩,
      ⟨"POST", "/1/tenant/objects/t", "", headers, Utf8.ofString "\x7b\"a\":2\x7d"⟩,
      ⟨"POST", "/1/tenant/objects/t", "", headers, Utf8.ofString "\x7b\"a\":1\x7d"⟩,
      ⟨"DELETE", "/1/tenant/objects/t/i0", "deleteMark=1", headers, []⟩,
      ⟨"POST", "/1/tenant/files/t/a", "", headers, [1]⟩,
      ⟨"POST", "/1/tenant/files/t/b", "", headers, [2]⟩,
      ⟨"DELETE", "/1/tenant/files/t/a", "deleteMark=1", headers, []⟩]
    let s := (Backend.answerAll numbered calls {}).store
    let c : Call := ⟨"GET", "/1/tenant/objects/t",
      "where=%7B%22a%22:1%7D&limit=1&count=1&deleteMark=1", headers, []⟩
    let found := Objects.found s "t" true [("a", .int 1)]
    found.map (·.1) = ["i0", "i2"] ∧
    Objects.find s c "t" = .ok (Objects.page true 2 (found.take 1), s) ∧
    (∃ fs, s.object? "t" "i0" = some fs ∧
      Objects.read s c "t" "i0" = .ok (.json 200 (.obj fs), s)) ∧
    ∃ listed : List Json.Fields, Files.list s ⟨"GET", "/1/tenant/files/t", "", headers, []⟩ "t"
        = .ok (.json 200 (.obj [("results", .arr (listed.map .obj))]), s) ∧
      (∃ m ∈ listed, m.get? "filename" = some (.str "b")) ∧
      ¬ ∃ m ∈ listed, m.get? "filename" = some (.str "a") := by
  intro headers calls s c found
  have hmark : c.flag deleteMark = true := by decide +kernel
  have hasks : Objects.Asks c [("a", .int 1)] :=
    .inr ⟨"\x7b\"a\":1\x7d", by decide +kernel, rfl⟩
  have hids : found.map (·.1) = ["i0", "i2"] := by decide +kernel
  have hlength : found.length = 2 := by
    rw [← List.length_map (f := (·.1)), hids]
    rfl
  obtain ⟨hqueries, hreads, hfiles⟩ := reads_agree numbered calls "t" true
  obtain ⟨-, -, hfind, hshown, -⟩ := hqueries [("a", .int 1)]
  have hstored : (s.object? "t" "i0").isSome = true := by decide +kernel
  obtain ⟨fs, hfs⟩ := Option.isSome_iff_exists.1 hstored
  have hall : ("i0", fs) ∈ Objects.found s "t" true [] :=
    ((hqueries []).2.1 "i0" fs).2 ⟨hfs, fun _ => rfl, fun _ _ hv => by cases hv⟩
  have hcount : c.flag "count" = true := by decide +kernel
  refine ⟨hids, ?_, ⟨fs, hfs, (hreads c "i0" fs hmark hfs).1 hall⟩, ?_⟩
  · rw [hfind c hasks hmark, hcount, hlength, (hshown c).1 1 (by decide +kernel)]
  · obtain ⟨listed, hlisted, hnames⟩ := hfiles ⟨"GET", "/1/tenant/files/t", "", headers, []⟩
      (by decide +kernel) (by decide +kernel)
    have hb : (s.file? "t" "b").map (fun file => isVisible false file.metadata) = some true := by
      decide +kernel
    have ha : (s.file? "t" "a").map (fun file => isVisible false file.metadata) = some false := by
      decide +kernel
    refine ⟨listed, hlisted, ?_, ?_⟩
    · exact (hnames "b").1 (Files.exists_read_iff.2 (Option.map_eq_some_iff.1 hb))
    · intro hmem
      obtain ⟨file, hfile, hvisible⟩ := Files.exists_read_iff.1 ((hnames "a").2 hmem)
      rw [hfile, Option.map_some, hvisible] at ha
      cases ha

end AppBackend.Server
