import AppBackend.Proofs.Json.RoundTrip

/-!
# Members of objects

Whatever the tokens, a value that stands inside open containers is read as it would be read alone,
with less room, and then goes into the innermost of them. So an object is read member by member.
Main statements: `run_under`, the run inside containers; `opens_of_readValue`, how a value begins;
and `readsMembers_of_run`, an object that is read to its end has been read one member after the
other. `outerNames` finds the names of those members in the tokens.
-/

namespace AppBackend.Json

/-! ### More containers outside -/

def Machine.under (m : Machine) (outer : List Frame) : Machine := ⟨m.frames ++ outer, m.expect⟩

def Progress.under (p : Progress) (outer : List Frame) : Progress :=
  match p with
  | .more m => .more (m.under outer)
  | .done v => complete v outer
  | .refused => .refused

/-- Inside its containers, or before the one value that it is to read. -/
def Machine.Inside (m : Machine) : Prop := m.frames = [] → m.expect = .value

theorem Machine.inside_cons (f : Frame) (fs : List Frame) (expect : Expect) :
    Machine.Inside ⟨f :: fs, expect⟩ := fun hnil => absurd hnil (List.cons_ne_nil f fs)

theorem under_complete (v : Json) (fs outer : List Frame) :
    (complete v fs).under outer = complete v (fs ++ outer) := by
  match fs with
  | [] => rfl
  | .arr _ :: _ => rfl
  | .obj _ _ :: _ => rfl

section
variable {room : Nat} (outer : List Frame)

theorem hasRoom_append (fs : List Frame) :
    Care.hasRoom (.full (room + outer.length)) (fs ++ outer).length
      = Care.hasRoom (.full room) fs.length := by
  simp [Care.hasRoom]

theorem beginValue_under (fs : List Frame) (t : Token) :
    beginValue (.full (room + outer.length)) (fs ++ outer) t
      = (beginValue (.full room) fs t).under outer := by
  cases t with
  | null => exact (under_complete ..).symm
  | bool b => exact (under_complete ..).symm
  | number l =>
    simp only [beginValue, Care.number?]
    cases l.value? with
    | none => rfl
    | some v => exact (under_complete ..).symm
  | text s =>
    simp only [beginValue, Care.text?]
    cases s with
    | none => rfl
    | some s => exact (under_complete ..).symm
  | openArr =>
    simp only [beginValue, hasRoom_append]
    split <;> rfl
  | openObj =>
    simp only [beginValue, hasRoom_append]
    split <;> rfl
  | _ => rfl

theorem takeKey_under {fs : List Frame} (hfs : fs ≠ []) (s : Option String) :
    takeKey (.full (room + outer.length)) (fs ++ outer) s
      = (takeKey (.full room) fs s).under outer := by
  match fs, s with
  | .arr _ :: _, _ => rfl
  | .obj _ _ :: _, none => rfl
  | .obj _ _ :: _, some _ => rfl

theorem step_itemOrClose {care : Care} {fs : List Frame} {t : Token} (h : t ≠ .closeArr) :
    Machine.step care ⟨fs, .itemOrClose⟩ t = beginValue care fs t := by
  cases fs with
  | nil => rfl
  | cons f fs =>
    cases f with
    | arr items => cases t <;> first | rfl | exact absurd rfl h
    | obj members key => rfl

/-- One step goes on inside more containers as it does without them. -/
theorem step_under {m : Machine} (hm : m.Inside) (t : Token) :
    (m.under outer).step (.full (room + outer.length)) t
      = (m.step (.full room) t).under outer := by
  obtain ⟨fs, expect⟩ := m
  match fs, expect with
  | fs, .value => exact beginValue_under outer fs t
  | [], .itemOrClose | [], .keyOrClose | [], .key | [], .colon | [], .commaOrClose =>
    exact nomatch hm rfl
  | f :: fs, .itemOrClose =>
    by_cases ht : t = .closeArr
    · subst ht
      cases f with
      | arr items => exact (under_complete ..).symm
      | obj members key => rfl
    · rw [step_itemOrClose ht, ← beginValue_under]
      exact step_itemOrClose ht
  | .arr items :: fs, .keyOrClose => cases t <;> rfl
  | .obj members key :: fs, .keyOrClose =>
    cases t with
    | closeObj => exact (under_complete ..).symm
    | text s => exact takeKey_under outer (List.cons_ne_nil _ fs) s
    | _ => rfl
  | f :: fs, .key =>
    cases t with
    | text s => exact takeKey_under outer (List.cons_ne_nil f fs) s
    | _ => rfl
  | f :: fs, .colon => cases t <;> rfl
  | .arr items :: fs, .commaOrClose =>
    cases t with
    | closeArr => exact (under_complete ..).symm
    | _ => rfl
  | .obj members key :: fs, .commaOrClose =>
    cases t with
    | closeObj => exact (under_complete ..).symm
    | _ => rfl

end

theorem inside_complete {v : Json} {fs : List Frame} {m : Machine} (h : complete v fs = .more m) :
    m.Inside := by
  match fs, h with
  | .arr _ :: _, rfl => exact Machine.inside_cons _ _ _
  | .obj _ _ :: _, rfl => exact Machine.inside_cons _ _ _

theorem inside_beginValue {care : Care} {fs : List Frame} {t : Token} {m : Machine}
    (h : beginValue care fs t = .more m) : m.Inside := by
  unfold beginValue at h
  split at h
  · exact inside_complete h
  · exact inside_complete h
  · split at h
    · exact inside_complete h
    · cases h
  · split at h
    · exact inside_complete h
    · cases h
  · split at h
    · cases h
      exact Machine.inside_cons _ _ _
    · cases h
  · split at h
    · cases h
      exact Machine.inside_cons _ _ _
    · cases h
  · cases h

theorem inside_takeKey {care : Care} {fs : List Frame} {s : Option String} {m : Machine}
    (h : takeKey care fs s = .more m) : m.Inside := by
  unfold takeKey at h
  split at h
  · cases h
    exact Machine.inside_cons _ _ _
  · cases h

theorem inside_step {care : Care} {m m' : Machine} {t : Token} (h : m.step care t = .more m') :
    m'.Inside := by
  unfold Machine.step at h
  split at h
  · exact inside_beginValue h
  · exact inside_complete h
  · exact inside_beginValue h
  · exact inside_complete h
  · exact inside_takeKey h
  · exact inside_takeKey h
  · cases h
    exact fun _ => rfl
  · cases h
    exact Machine.inside_cons _ _ _
  · exact inside_complete h
  · cases h
    exact Machine.inside_cons _ _ _
  · exact inside_complete h
  · cases h

/-- A run that is finished without the outer containers goes on in them with what it has read. -/
theorem run_under {room : Nat} (outer : List Frame) {m : Machine} (hm : m.Inside)
    (ts : List Token) :
    (m.under outer).run (.full (room + outer.length)) ts =
      match m.run (.full room) ts with
      | .ok (v, rest) => resume (.full (room + outer.length)) rest (complete v outer)
      | .error f => .error f := by
  induction ts generalizing m with
  | nil => rfl
  | cons t ts ih =>
    rw [run_cons, run_cons, step_under outer hm]
    cases hstep : m.step (.full room) t with
    | more m' => exact ih (inside_step hstep)
    | done v => rfl
    | refused => rfl

/-! ### How values begin -/

/-- A token that a value may begin with. -/
def Token.opens : Token → Json → Bool
  | .null, .null | .bool _, .bool _ | .number _, .int _ | .number _, .float _ | .text _, .str _
  | .openArr, .arr _ | .openObj, .obj _ => true
  | _, _ => false

def Frame.isObj : Frame → Bool
  | .arr _ => false
  | .obj _ _ => true

/-- What a container is read as, an object or an array. -/
def closed (isObj : Bool) : Json → Bool
  | .arr _ => !isObj
  | .obj _ => isObj
  | _ => false

/-- All that is still to come belongs to an outermost container of one kind. -/
def Progress.EndsIn (isObj : Bool) : Progress → Prop
  | .more m => ∃ fs f, m.frames = fs ++ [f] ∧ f.isObj = isObj
  | .done v => closed isObj v = true
  | .refused => True

section
variable {care : Care} {fs gs : List Frame} {f g : Frame}

theorem endsIn_complete (v : Json) (fs : List Frame) (f : Frame) :
    (complete v (fs ++ [f])).EndsIn f.isObj := by
  match fs with
  | [] =>
    cases f with
    | arr items => exact ⟨[], _, rfl, rfl⟩
    | obj members key => exact ⟨[], _, rfl, rfl⟩
  | .arr items :: fs => exact ⟨.arr (v :: items) :: fs, f, rfl, rfl⟩
  | .obj members key :: fs => exact ⟨.obj (members.insert key v) key :: fs, f, rfl, rfl⟩

theorem endsIn_beginValue (t : Token) : (beginValue care (fs ++ [f]) t).EndsIn f.isObj := by
  unfold beginValue
  split
  · exact endsIn_complete ..
  · exact endsIn_complete ..
  · split
    · exact endsIn_complete ..
    · trivial
  · split
    · exact endsIn_complete ..
    · trivial
  · split
    · exact ⟨.arr [] :: fs, f, rfl, rfl⟩
    · trivial
  · split
    · exact ⟨.obj [] "" :: fs, f, rfl, rfl⟩
    · trivial
  · trivial

/-- A container that is closed is the outermost one, or it goes into the next one out. -/
theorem endsIn_close (h : fs ++ [f] = g :: gs) {v : Json} (hv : closed g.isObj v = true) :
    (complete v gs).EndsIn f.isObj := by
  cases fs with
  | nil =>
    obtain ⟨rfl, rfl⟩ := List.cons.inj h
    exact hv
  | cons f' fs =>
    obtain ⟨rfl, rfl⟩ := List.cons.inj h
    exact endsIn_complete v fs f

/-- A container goes on as it was, as far as its kind is concerned. -/
theorem endsIn_same (h : fs ++ [f] = g :: gs) {g' : Frame} (hg : g'.isObj = g.isObj)
    (expect : Expect) : (Progress.more ⟨g' :: gs, expect⟩).EndsIn f.isObj := by
  cases fs with
  | nil =>
    obtain ⟨rfl, rfl⟩ := List.cons.inj h
    exact ⟨[], g', rfl, hg⟩
  | cons f' fs =>
    obtain ⟨rfl, rfl⟩ := List.cons.inj h
    exact ⟨g' :: fs, f, rfl, rfl⟩

theorem endsIn_takeKey (s : Option String) : (takeKey care (fs ++ [f]) s).EndsIn f.isObj := by
  unfold takeKey
  split
  · rename_i h _
    refine endsIn_same h ?_ _
    rfl
  · trivial

theorem endsIn_step {m : Machine} (h : m.frames = fs ++ [f]) (t : Token) :
    (m.step care t).EndsIn f.isObj := by
  unfold Machine.step
  rw [h]
  split
  · exact endsIn_beginValue _
  · rename_i hg
    exact endsIn_close hg rfl
  · exact endsIn_beginValue _
  · rename_i hg
    exact endsIn_close hg rfl
  · exact endsIn_takeKey _
  · exact endsIn_takeKey _
  · exact ⟨fs, f, rfl, rfl⟩
  · rename_i hg
    exact endsIn_same hg rfl _
  · rename_i hg
    exact endsIn_close hg rfl
  · rename_i hg
    exact endsIn_same hg rfl _
  · rename_i hg
    exact endsIn_close hg rfl
  · trivial

theorem closed_of_run {m : Machine} (h : m.frames = fs ++ [f]) {ts rest : List Token} {v : Json}
    (hrun : m.run care ts = .ok (v, rest)) : closed f.isObj v = true := by
  induction ts generalizing m fs f with
  | nil => cases hrun
  | cons t ts ih =>
    have hstep : (m.step care t).EndsIn f.isObj := endsIn_step h t
    rw [run_cons] at hrun
    cases hp : m.step care t with
    | more m' =>
      rw [hp] at hstep hrun
      obtain ⟨fs', f', hframes, hkind⟩ := hstep
      rw [← hkind]
      exact ih hframes hrun
    | done w =>
      rw [hp] at hstep hrun
      cases hrun
      exact hstep
    | refused =>
      rw [hp] at hrun
      cases hrun

end

theorem opens_of_number {l : Literal} {v : Json} (h : l.value? = some v) :
    (Token.number l).opens v = true := by
  unfold Literal.value? at h
  dsimp only at h
  split at h
  · cases h
    rfl
  split at h
  · cases h
    rfl
  · obtain ⟨x, -, rfl⟩ := Option.map_eq_some_iff.1 h
    rfl

/-- The first token of a value tells its kind. -/
theorem opens_of_readValue {room : Nat} {ts rest : List Token} {v : Json}
    (h : readValue (.full room) ts = .ok (v, rest)) :
    ∃ t us, ts = t :: us ∧ t.opens v = true := by
  cases ts with
  | nil => cases h
  | cons t ts =>
    refine ⟨t, ts, rfl, ?_⟩
    rw [readValue, run_cons] at h
    cases t with
    | null => cases h; rfl
    | bool b => cases h; rfl
    | number l =>
      simp only [Machine.step, beginValue, Care.number?] at h
      cases hl : l.value? with
      | none => simp [hl, resume] at h
      | some w =>
        rw [hl] at h
        cases h
        exact opens_of_number hl
    | text s =>
      simp only [Machine.step, beginValue, Care.text?] at h
      cases s with
      | none => cases h
      | some s => cases h; rfl
    | openArr =>
      simp only [Machine.step, beginValue] at h
      split at h
      · have hframes : (⟨[.arr []], .itemOrClose⟩ : Machine).frames = [] ++ [.arr []] := rfl
        have hclosed := closed_of_run hframes h
        cases v <;> first | rfl | cases hclosed
      · cases h
    | openObj =>
      simp only [Machine.step, beginValue] at h
      split at h
      · have hframes : (⟨[.obj [] ""], .keyOrClose⟩ : Machine).frames = [] ++ [.obj [] ""] := rfl
        have hclosed := closed_of_run hframes h
        cases v <;> first | rfl | cases hclosed
      · cases h
    | _ => cases h

/-! ### Objects member by member -/

section
variable {room : Nat} {acc : Fields} {key : String} {ts rest : List Token} {w : Json}

/-- What follows the value of a member: the next member, or the end of the object. -/
theorem resume_member (v : Json) (ts : List Token) :
    resume (.full room) ts (complete v [.obj acc key]) =
      match ts with
      | .comma :: more => Machine.run (.full room) ⟨[.obj (acc.insert key v) key], .key⟩ more
      | .closeObj :: more => .ok (.obj (acc.insert key v), more)
      | _ => .error .malformed := by
  cases ts with
  | nil => rfl
  | cons t ts => cases t <;> rfl

theorem exists_name_of_run
    (h : Machine.run (.full room) ⟨[.obj acc key], .key⟩ ts = .ok (w, rest)) :
    ∃ name us, ts = .text (some name) :: .colon :: us := by
  cases ts with
  | nil => cases h
  | cons t ts =>
    cases t with
    | text s =>
      cases s with
      | none => cases h
      | some name =>
        cases ts with
        | nil => cases h
        | cons u us =>
          cases u with
          | colon => exact ⟨name, us, rfl⟩
          | _ => cases h
    | _ => cases h

theorem run_member (name : String) (us : List Token) :
    Machine.run (.full (room + 1)) ⟨[.obj acc key], .key⟩ (.text (some name) :: .colon :: us) =
      match readValue (.full room) us with
      | .ok (v, more) => resume (.full (room + 1)) more (complete v [.obj acc name])
      | .error f => .error f := by
  rw [run_key]
  exact run_under [.obj acc name] (m := ⟨[], .value⟩) (fun _ => rfl) us

/-- The members from here on, one after the other, put with those read before, and what is left
after the end of the object. -/
inductive ReadsMembers (room : Nat) : Fields → List Token → Fields → List Token → Prop where
  | last {acc : Fields} {name : String} {v : Json} {us rest : List Token}
      (hv : readValue (.full room) us = .ok (v, .closeObj :: rest)) :
      ReadsMembers room acc (.text (some name) :: .colon :: us) (acc.insert name v) rest
  | more {acc fs : Fields} {name : String} {v : Json} {us more rest : List Token}
      (hv : readValue (.full room) us = .ok (v, .comma :: more))
      (h : ReadsMembers room (acc.insert name v) more fs rest) :
      ReadsMembers room acc (.text (some name) :: .colon :: us) fs rest

/-- An object that is read to its end is read member by member. -/
theorem readsMembers_of_run
    (h : Machine.run (.full (room + 1)) ⟨[.obj acc key], .key⟩ ts = .ok (w, rest)) :
    ∃ fs, w = .obj fs ∧ ReadsMembers room acc ts fs rest := by
  induction hn : ts.length using Nat.strongRecOn generalizing ts acc key with
  | ind n ih =>
    obtain ⟨name, us, rfl⟩ := exists_name_of_run h
    rw [run_member] at h
    cases hv : readValue (.full room) us with
    | error f =>
      rw [hv] at h
      cases h
    | ok r =>
      obtain ⟨v, more⟩ := r
      have hshorter := readValue_length hv
      rw [hv] at h
      dsimp only at h
      rw [resume_member] at h
      split at h
      · rename_i more
        have hlt : more.length < n := by
          simp only [List.length_cons] at hn hshorter
          omega
        obtain ⟨fs, hw, hrest⟩ := ih more.length hlt h rfl
        exact ⟨fs, hw, .more hv hrest⟩
      · obtain ⟨rfl, rfl⟩ := Prod.mk.inj (Except.ok.inj h)
        exact ⟨_, rfl, .last hv⟩
      · cases h

theorem ReadsMembers.run {fs : Fields} (h : ReadsMembers room acc ts fs rest) (key : String) :
    Machine.run (.full (room + 1)) ⟨[.obj acc key], .key⟩ ts = .ok (.obj fs, rest) := by
  induction h generalizing key with
  | last hv => rw [run_member, hv]; rfl
  | more hv _ ih => rw [run_member, hv]; exact ih _

/-! ### The names of members -/

/-- How many containers are open after a token. -/
def Token.depthAfter (depth : Nat) : Token → Nat
  | .openArr | .openObj => depth + 1
  | .closeArr | .closeObj => depth - 1
  | _ => depth

/-- The texts one container deep that a colon follows: if the tokens are an object, the names of its
members as they come. -/
def outerNames (depth : Nat) : List Token → List String
  | [] => []
  | .text (some name) :: ts =>
    if depth = 1 ∧ ts.head? = some .colon then name :: outerNames depth ts
    else outerNames depth ts
  | t :: ts => outerNames (t.depthAfter depth) ts

theorem outerNames_cons_of_not {depth : Nat} {t : Token} {ts : List Token}
    (h : ∀ name, t = .text (some name) → ¬ (depth = 1 ∧ ts.head? = some .colon)) :
    outerNames depth (t :: ts) = outerNames (t.depthAfter depth) ts := by
  match t with
  | .text (some name) =>
    rw [outerNames, if_neg (h name rfl)]
    rfl
  | .text none | .null | .bool _ | .number _ | .openArr | .closeArr | .openObj | .closeObj | .colon
  | .comma | .fault => rfl

/-- The containers open after a step, counted with the one that the value stands in. -/
def Progress.depth? : Progress → Option Nat
  | .more m => some (m.frames.length + 1)
  | .done _ => some 1
  | .refused => none

theorem depth?_complete (v : Json) (fs : List Frame) :
    (complete v fs).depth? = some (fs.length + 1) := by
  match fs with
  | [] => rfl
  | .arr _ :: _ => rfl
  | .obj _ _ :: _ => rfl

theorem depth?_beginValue {care : Care} {fs : List Frame} {t : Token} {d : Nat}
    (h : (beginValue care fs t).depth? = some d) : t.depthAfter (fs.length + 1) = d := by
  unfold beginValue at h
  split at h
  · exact Option.some.inj ((depth?_complete ..).symm.trans h)
  · exact Option.some.inj ((depth?_complete ..).symm.trans h)
  · split at h
    · exact Option.some.inj ((depth?_complete ..).symm.trans h)
    · cases h
  · split at h
    · exact Option.some.inj ((depth?_complete ..).symm.trans h)
    · cases h
  · split at h
    · exact Option.some.inj h
    · cases h
  · split at h
    · exact Option.some.inj h
    · cases h
  · cases h

theorem depth?_takeKey {care : Care} {fs : List Frame} {s : Option String} {d : Nat}
    (h : (takeKey care fs s).depth? = some d) : fs.length + 1 = d := by
  unfold takeKey at h
  split at h
  · exact Option.some.inj h
  · cases h

theorem depth?_step {care : Care} {m : Machine} {t : Token} {d : Nat}
    (h : (m.step care t).depth? = some d) : t.depthAfter (m.frames.length + 1) = d := by
  obtain ⟨fs, expect⟩ := m
  unfold Machine.step at h
  dsimp only at h ⊢
  split at h
  · exact depth?_beginValue h
  · exact Option.some.inj ((depth?_complete ..).symm.trans h)
  · exact depth?_beginValue h
  · exact Option.some.inj ((depth?_complete ..).symm.trans h)
  · exact depth?_takeKey h
  · exact depth?_takeKey h
  · exact Option.some.inj h
  · exact Option.some.inj h
  · exact Option.some.inj ((depth?_complete ..).symm.trans h)
  · exact Option.some.inj h
  · exact Option.some.inj ((depth?_complete ..).symm.trans h)
  · cases h

/-- No name stands inside a value. -/
theorem outerNames_of_run {m : Machine} (hm : m.Inside) {v : Json}
    (h : m.run (.full room) ts = .ok (v, rest)) (hrest : rest.head? ≠ some .colon) :
    outerNames (m.frames.length + 1) ts = outerNames 1 rest := by
  induction ts generalizing m with
  | nil => cases h
  | cons t ts ih =>
    -- outside all containers a text is the whole value, and no colon follows it
    have hname : ∀ name, t = .text (some name) →
        ¬ (m.frames.length + 1 = 1 ∧ ts.head? = some .colon) := by
      rintro name rfl ⟨hlength, hcolon⟩
      obtain ⟨fs, expect⟩ := m
      obtain rfl : fs = [] := List.length_eq_zero_iff.1 (Nat.succ.inj hlength)
      obtain rfl : expect = .value := hm rfl
      cases h
      exact hrest hcolon
    rw [outerNames_cons_of_not hname]
    rw [run_cons] at h
    cases hstep : m.step (.full room) t with
    | more m' =>
      rw [hstep] at h
      rw [depth?_step (d := m'.frames.length + 1) (by rw [hstep]; rfl)]
      exact ih (inside_step hstep) h
    | done w =>
      rw [hstep] at h
      cases h
      rw [depth?_step (d := 1) (by rw [hstep]; rfl)]
    | refused =>
      rw [hstep] at h
      cases h

theorem outerNames_of_readValue {v : Json} (h : readValue (.full room) ts = .ok (v, rest))
    (hrest : rest.head? ≠ some .colon) : outerNames 1 ts = outerNames 1 rest :=
  outerNames_of_run (m := ⟨[], .value⟩) (fun _ => rfl) h hrest

theorem outerNames_of_name (name : String) (us : List Token) :
    outerNames 1 (.text (some name) :: .colon :: us) = name :: outerNames 1 us := by
  rw [outerNames, if_pos ⟨rfl, rfl⟩]
  rfl

theorem outerNames_of_more {name : String} {v : Json} {us more : List Token}
    (hv : readValue (.full room) us = .ok (v, .comma :: more)) :
    outerNames 1 (.text (some name) :: .colon :: us) = name :: outerNames 1 more := by
  rw [outerNames_of_name, outerNames_of_readValue hv (by simp)]
  rfl

theorem mem_outerNames (name : String) (us : List Token) :
    name ∈ outerNames 1 (.text (some name) :: .colon :: us) := by
  rw [outerNames_of_name]
  exact List.mem_cons_self ..

/-- A member that is not named from here on stays as it was read before. -/
theorem ReadsMembers.get? {fs : Fields} (h : ReadsMembers room acc ts fs rest) {name : String}
    (hname : name ∉ outerNames 1 ts) : fs.get? name = acc.get? name := by
  induction h with
  | @last acc other v us rest hv =>
    have hne : other ≠ name := fun he => hname (he ▸ mem_outerNames other us)
    exact Keyed.get?_insert_of_ne acc v hne
  | @more acc fs other v us more rest hv _ ih =>
    rw [outerNames_of_more hv, List.mem_cons, not_or] at hname
    rw [ih hname.2]
    exact Keyed.get?_insert_of_ne acc v (Ne.symm hname.1)

end
end AppBackend.Json
