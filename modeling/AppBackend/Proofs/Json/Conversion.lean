import AppBackend.Proofs.Json.Members
import AppBackend.Proofs.Json.Records

/-!
# Records from texts and from objects

A record may be read from a text directly, member by member as they come, or the text is read as a
value first and the record taken out of the object. Main statement: `ofUnits_eq_ok_iff`, for a
record that is always an object and looks at its unknown members as closely as at the known ones,
the two ways take the same texts and give the same members, as long as no member comes twice.
-/

namespace AppBackend.Json

/-! ### One member -/

theorem admits_of_opens {shape : Shape} {t : Token} {v : Json} (ht : t.opens v = true)
    (hv : shape.conforms v = true) : shape.admits t = true := by
  match t, v, ht with
  | .null, .null, _ | .bool _, .bool _, _ | .number _, .int _, _ | .number _, .float _, _
  | .text _, .str _, _ | .openArr, .arr _, _ | .openObj, .obj _, _ =>
    cases shape <;> first | rfl | cases hv

theorem Shape.read_eq_ok_iff {shape : Shape} {room : Nat} {ts rest : List Token} {v : Json} :
    shape.read (.full room) ts = .ok (v, rest) ↔
      readValue (.full room) ts = .ok (v, rest) ∧ shape.conforms v = true := by
  unfold Shape.read
  constructor
  · intro h
    split at h
    · split at h
      · rename_i hread
        split at h
        · rename_i hconforms
          cases h
          exact ⟨hread, hconforms⟩
        · cases h
      · cases h
    · cases h
  · rintro ⟨hread, hconforms⟩
    obtain ⟨t, us, rfl, hopens⟩ := opens_of_readValue hread
    have hadmits : (((t :: us).head?.map shape.admits).getD false) = true :=
      admits_of_opens hopens hconforms
    rw [if_pos hadmits, hread]
    exact if_pos hconforms

namespace Schema

variable {s : Schema} {room : Nat}

/-- The members that the schema knows. -/
def known (s : Schema) (fs : Fields) : Fields := fs.filter fun f => (s.member? f.1).isSome

/-- Every known member has its shape. -/
def Conforms (s : Schema) (fs : Fields) : Prop :=
  ∀ f ∈ fs, ∀ m, s.member? f.1 = some m → m.shape.conforms f.2 = true

def Complete (s : Schema) (fs : Fields) : Prop :=
  (s.required.all fun n => (fs.get? n).isSome) = true

theorem ofFields?_eq_some_iff {fs gs : Fields} :
    s.ofFields? fs = some gs ↔ s.Conforms fs ∧ s.Complete (s.known fs) ∧ gs = s.known fs := by
  have hfits : ((s.known fs).all fun f =>
      ((s.member? f.1).map fun m => m.shape.conforms f.2).getD false) = true ↔ s.Conforms fs := by
    rw [List.all_eq_true]
    constructor
    · intro h f hf m hm
      have hknown : f ∈ s.known fs := List.mem_filter.2 ⟨hf, by rw [hm]; rfl⟩
      simpa [hm] using h f hknown
    · intro h f hf
      obtain ⟨hmem, hsome⟩ := List.mem_filter.1 hf
      obtain ⟨m, hm⟩ := Option.isSome_iff_exists.1 hsome
      simpa [hm] using h f hmem m hm
  rw [← hfits, ← and_assoc, Complete, ← Bool.and_eq_true, eq_comm (a := gs)]
  unfold ofFields?
  exact Option.ite_none_right_eq_some.trans (and_congr_right fun _ => Option.some_inj)

theorem readMember_eq_ok_iff (hs : s.unknown = id) {name : String} {ts rest : List Token}
    {v : Json} :
    s.readMember (.full room) name ts = .ok (v, rest) ↔
      readValue (.full room) ts = .ok (v, rest) ∧
        ∀ m, s.member? name = some m → m.shape.conforms v = true := by
  unfold readMember
  cases hm : s.member? name with
  | some m =>
    simp only [Shape.read_eq_ok_iff, Option.some.injEq, forall_eq']
  | none =>
    simp only [hs, id, Shape.read_eq_ok_iff]
    simp [Shape.conforms]

theorem keep_known {acc : Fields} (hacc : Keyed.Ascending acc) (name : String) (v : Json) :
    s.keep (s.known acc) name v = s.known (acc.insert name v) := by
  exact (hacc.filter_insert (fun name => (s.member? name).isSome) name v).symm

theorem Conforms.insert {acc : Fields} (h : s.Conforms acc) {name : String} {v : Json}
    (hv : ∀ m, s.member? name = some m → m.shape.conforms v = true) :
    s.Conforms (acc.insert name v) := by
  intro f hf
  rcases Keyed.mem_insert hf with rfl | hf
  · exact hv
  · exact h f hf

theorem finish_of_ok {seen gs : Fields} {ts rest : List Token}
    (h : s.finish seen ts = .ok (gs, rest)) : s.Complete seen ∧ gs = seen ∧ rest = ts := by
  unfold finish at h
  split at h
  · rename_i hcomplete
    cases h
    exact ⟨hcomplete, rfl, rfl⟩
  · cases h

/-- Members that are read as a record are the members of an object that holds the record. -/
theorem readsMembers_of_readMembers (hs : s.unknown = id) {acc gs : Fields} {ts rest : List Token}
    (hacc : Keyed.Ascending acc) (hfits : s.Conforms acc)
    (h : s.readMembers (.full room) (s.known acc) ts = .ok (gs, rest)) :
    ∃ fs, ReadsMembers room acc ts fs rest ∧ s.ofFields? fs = some gs := by
  generalize hseen : s.known acc = seen at h
  generalize hcare : Care.full room = care at h
  fun_induction readMembers s care seen ts generalizing acc with
  | case2 seen name _ us v more hread _ ih =>
    subst hseen hcare
    obtain ⟨hv, hshape⟩ := (readMember_eq_ok_iff hs).1 hread
    obtain ⟨fs, hrest, hfields⟩ :=
      ih (hacc.insert name v) (hfits.insert hshape) (keep_known hacc name v).symm h
    exact ⟨fs, .more hv hrest, hfields⟩
  | case3 seen name _ us v more hread =>
    subst hseen hcare
    obtain ⟨hv, hshape⟩ := (readMember_eq_ok_iff hs).1 hread
    obtain ⟨hcomplete, rfl, rfl⟩ := finish_of_ok h
    rw [keep_known hacc] at hcomplete ⊢
    exact ⟨_, .last hv, ofFields?_eq_some_iff.2 ⟨hfits.insert hshape, hcomplete, rfl⟩⟩
  | case1 | case4 | case5 | case6 | case7 => cases h

/-- The members of an object that holds a record are read as the record, if no two have one name. -/
theorem readMembers_of_readsMembers (hs : s.unknown = id) {acc fs : Fields} {ts rest : List Token}
    (h : ReadsMembers room acc ts fs rest) (hacc : Keyed.Ascending acc)
    (hnames : (outerNames 1 ts).Nodup) (hnew : ∀ n ∈ outerNames 1 ts, acc.get? n = none)
    (hfits : s.Conforms fs) (hcomplete : s.Complete (s.known fs)) :
    s.readMembers (.full room) (s.known acc) ts = .ok (s.known fs, rest) := by
  have hunseen {acc : Fields} {name : String} (h : acc.get? name = none) :
      (s.known acc).get? name = none := by
    rw [known, Keyed.get?_filter (fun name => (s.member? name).isSome), h, ite_self]
  induction h with
  | @last acc name v us rest hv =>
    have hmem := Keyed.mem_of_get? (Keyed.get?_insert_self acc name v)
    have hread := (readMember_eq_ok_iff hs).2 ⟨hv, hfits _ hmem⟩
    rw [readMembers_of_read (hunseen (hnew name (mem_outerNames name us))) hread, keep_known hacc]
    exact if_pos hcomplete
  | @more acc fs name v us more rest hv hrest ih =>
    rw [outerNames_of_more hv] at hnames hnew
    obtain ⟨hfirst, hnames⟩ := List.nodup_cons.1 hnames
    have hget : fs.get? name = some v := by
      rw [hrest.get? hfirst, Keyed.get?_insert_self]
    have hread := (readMember_eq_ok_iff hs).2 ⟨hv, hfits _ (Keyed.mem_of_get? hget)⟩
    rw [readMembers_of_read (hunseen (hnew name (List.mem_cons_self ..))) hread, keep_known hacc]
    refine ih (hacc.insert name v) hnames (fun n hn => ?_) hfits hcomplete
    have hne : name ≠ n := fun he => hfirst (he ▸ hn)
    rw [Keyed.get?_insert_of_ne acc v hne]
    exact hnew n (List.mem_cons_of_mem _ hn)

/-! ### Whole texts -/

theorem run_keyOrClose_of_ne {care : Care} {acc : Fields} {key : String} {us : List Token}
    (h : us.head? ≠ some .closeObj) :
    Machine.run care ⟨[.obj acc key], .keyOrClose⟩ us
      = Machine.run care ⟨[.obj acc key], .key⟩ us := by
  cases us with
  | nil => rfl
  | cons t us =>
    cases t with
    | closeObj => exact absurd rfl h
    | _ => rfl

theorem read_openObj {care : Care} {us : List Token} (h : us.head? ≠ some .closeObj) :
    s.read care (.openObj :: us) = s.readMembers care.inner [] us := by
  cases us with
  | nil => rfl
  | cons t us =>
    cases t with
    | closeObj => exact absurd rfl h
    | _ => rfl

/-- A record that is read from a whole text is in the object that the text reads as. -/
theorem exists_object_of_read (hs : s.unknown = id) (hp : s.positional = .refused)
    {ts : List Token} {gs : Fields} (h : s.read .standard ts = .ok (gs, [])) :
    ∃ fs, readValue .standard ts = .ok (.obj fs, []) ∧ s.ofFields? fs = some gs := by
  match ts with
  | .openObj :: us =>
    by_cases hne : us.head? = some .closeObj
    · obtain ⟨vs, rfl⟩ := List.head?_eq_some_iff.1 hne
      obtain ⟨hcomplete, rfl, rfl⟩ := finish_of_ok h
      exact ⟨[], rfl, ofFields?_eq_some_iff.2 ⟨nofun, hcomplete, rfl⟩⟩
    · rw [read_openObj hne] at h
      obtain ⟨fs, hmembers, hfields⟩ := readsMembers_of_readMembers hs .nil nofun h
      refine ⟨fs, ?_, hfields⟩
      rw [← hmembers.run "", ← run_keyOrClose_of_ne hne]
      rfl
  | .openArr :: us =>
    simp only [read, hp, reduceCtorEq] at h
  | [] | .null :: _ | .bool _ :: _ | .number _ :: _ | .text _ :: _ | .closeArr :: _
  | .closeObj :: _ | .colon :: _ | .comma :: _ | .fault :: _ => cases h

/-- The members of an object, one after the other from its opening brace on. -/
theorem readsMembers_of_readValue {us : List Token} {fs : Fields}
    (h : readValue .standard (.openObj :: us) = .ok (.obj fs, []))
    (hne : us.head? ≠ some .closeObj) : ReadsMembers 126 [] us fs [] := by
  have hrun : Machine.run (.full 127) ⟨[.obj [] ""], .key⟩ us = .ok (.obj fs, []) := by
    rw [← run_keyOrClose_of_ne hne]
    exact h
  obtain ⟨gs, hgs, hmembers⟩ := readsMembers_of_run hrun
  cases hgs
  exact hmembers

theorem read_of_object (hs : s.unknown = id) {ts : List Token} {fs gs : Fields}
    (hread : readValue .standard ts = .ok (.obj fs, [])) (hfields : s.ofFields? fs = some gs)
    (hnames : (outerNames 0 ts).Nodup) : s.read .standard ts = .ok (gs, []) := by
  obtain ⟨t, us, rfl, hopens⟩ := opens_of_readValue hread
  cases t with
  | openObj =>
    obtain ⟨hfits, hcomplete, rfl⟩ := ofFields?_eq_some_iff.1 hfields
    by_cases hne : us.head? = some .closeObj
    · obtain ⟨vs, rfl⟩ := List.head?_eq_some_iff.1 hne
      cases hread
      exact if_pos hcomplete
    · rw [read_openObj hne]
      exact readMembers_of_readsMembers hs (readsMembers_of_readValue hread hne) .nil hnames
        (fun _ _ => rfl) hfits hcomplete
  | _ => cases hopens

/-- A record that is always an object is read from a text just when it is in the object that the
text reads as. -/
theorem ofUnits_eq_ok_iff (hs : s.unknown = id) (hp : s.positional = .refused)
    {units : List (Option Char)}
    (hnames : ∀ fs, ofUnits? units = some (.obj fs) → (outerNames 0 (tokens units)).Nodup)
    {gs : Fields} :
    s.ofUnits units = .ok gs ↔
      ∃ fs, ofUnits? units = some (.obj fs) ∧ s.ofFields? fs = some gs := by
  have hrecord : s.ofUnits units = .ok gs ↔ s.read .standard (tokens units) = .ok (gs, []) := by
    unfold ofUnits
    split <;> simp_all
  have hvalue (fs : Fields) : ofUnits? units = some (.obj fs) ↔
      readValue .standard (tokens units) = .ok (.obj fs, []) := by
    unfold ofUnits?
    split <;> simp_all
  simp only [hvalue] at hnames
  rw [hrecord]
  simp only [hvalue]
  constructor
  · exact exists_object_of_read hs hp
  · rintro ⟨fs, hread, hfields⟩
    exact read_of_object hs hread hfields (hnames fs hread)

end Schema
end AppBackend.Json
