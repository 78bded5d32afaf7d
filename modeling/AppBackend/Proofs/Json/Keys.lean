import AppBackend.Proofs.Json.RoundTrip

/-!
# Keys read back

What is read of any text that was written, be the value plain or not, too deep or not: nothing, or a
value with the same shape on the outside. Main statements: `key_of_ofBytes?_bytes`, an object that
reads back at all has no keys but those that were written, and `ofBytes?_bytes_of_counted`.
-/

namespace AppBackend.Json

/-- An object is read as an object without further keys. -/
def ReadsAs (v w : Json) : Prop :=
  ∀ ms, v = .obj ms → ∃ gs, w = .obj gs ∧ ∀ g ∈ gs, ∃ m ∈ ms, m.1 = g.1

theorem readsAs_of_ne {v : Json} (h : ∀ ms, v ≠ .obj ms) (w : Json) : v.ReadsAs w :=
  fun ms hms => absurd hms (h ms)

section
variable {room : Nat} {fs : List Frame}

/-- Text that is refused from here on, or read as some value that is allowed. -/
def Yields (room : Nat) (fs : List Frame) (allowed : Json → Prop) (m : Machine) (us ts : List Token) :
    Prop :=
  m.run (.full room) us = .error .malformed ∨
    ∃ w, allowed w ∧ m.run (.full room) us = resume (.full room) ts (complete w fs)

theorem yields_of_step {allowed : Json → Prop} {m next : Machine} {t : Token} {us ts : List Token}
    (hstep : m.step (.full room) t = .more next) (h : Yields room fs allowed next us ts) :
    Yields room fs allowed m (t :: us) ts := by
  unfold Yields at h ⊢
  rw [run_cons, hstep]
  exact h

theorem yields_of_refused {allowed : Json → Prop} {m : Machine} {t : Token} {us : List Token}
    (hstep : m.step (.full room) t = .refused) (ts : List Token) :
    Yields room fs allowed m (t :: us) ts := by
  refine Or.inl ?_
  rw [run_cons, hstep]
  rfl

theorem yields_of_complete {allowed : Json → Prop} {m : Machine} {t : Token} {w : Json}
    (hw : allowed w) (hstep : m.step (.full room) t = complete w fs) (ts : List Token) :
    Yields room fs allowed m (t :: ts) ts := by
  refine Or.inr ⟨w, hw, ?_⟩
  rw [run_cons, hstep]

/-- A value inside a container is read first, and the container goes on after it. -/
theorem yields_of_inner {allowed inner : Json → Prop} {frame : Frame} {m : Machine}
    {us rest ts : List Token} (h : Yields room (frame :: fs) inner m us rest)
    (hnext : ∀ w, ∃ next, complete w (frame :: fs) = .more next ∧
      Yields room fs allowed next rest ts) :
    Yields room fs allowed m us ts := by
  obtain herror | ⟨w, -, hrun⟩ := h
  · exact Or.inl herror
  · obtain ⟨next, hcomplete, hrest⟩ := hnext w
    unfold Yields at hrest ⊢
    rw [hrun, hcomplete]
    exact hrest

end

/-- Members of no keys but these. -/
def KeysIn (ks : List String) (w : Json) : Prop := ∃ gs, w = .obj gs ∧ ∀ g ∈ gs, g.1 ∈ ks

mutual

theorem yields_value (v : Json) (room : Nat) (fs : List Frame) (ts : List Token) :
    Yields room fs v.ReadsAs ⟨fs, .value⟩ (tokensOf v ++ ts) ts := by
  -- by the constructors; a number may be out of range and a container too deep
  have hnumber (l : Literal) (h : ∀ ms, v ≠ .obj ms) :
      Yields room fs v.ReadsAs ⟨fs, .value⟩ (.number l :: ts) ts := by
    cases hl : l.value? with
    | none =>
      refine yields_of_refused ?_ ts
      simp [Machine.step, beginValue, Care.number?, hl]
    | some w =>
      refine yields_of_complete (readsAs_of_ne h w) ?_ ts
      simp [Machine.step, beginValue, Care.number?, hl]
  match v with
  | .null => exact yields_of_complete (readsAs_of_ne (by simp) _) rfl ts
  | .bool b => exact yields_of_complete (readsAs_of_ne (by simp) _) rfl ts
  | .int n => exact hnumber _ (by simp)
  | .float x =>
    obtain ⟨l, -, -, htokens, -⟩ := tokensOf_float x
    rw [htokens]
    exact hnumber l (by simp)
  | .str s => exact yields_of_complete (readsAs_of_ne (by simp) _) rfl ts
  | .arr items =>
    rw [tokensOf, List.cons_append, List.append_assoc]
    by_cases hroom : fs.length < room
    · have hopen : Machine.step (.full room) ⟨fs, .value⟩ .openArr
          = .more ⟨.arr [] :: fs, .itemOrClose⟩ := by
        simp [Machine.step, beginValue, Care.hasRoom, hroom]
      refine yields_of_step hopen ?_
      by_cases he : items = []
      · subst he
        exact yields_of_complete (readsAs_of_ne (by simp) _) rfl ts
      · obtain h | ⟨w, -, h⟩ := yields_items items he [] room fs ts
        · refine Or.inl ?_
          rw [run_itemOrClose he]
          exact h
        · refine Or.inr ⟨w, readsAs_of_ne (by simp) w, ?_⟩
          rw [run_itemOrClose he]
          exact h
    · refine yields_of_refused ?_ ts
      simp [Machine.step, beginValue, Care.hasRoom, hroom]
  | .obj members =>
    rw [tokensOf, List.cons_append, List.append_assoc]
    by_cases hroom : fs.length < room
    · have hopen : Machine.step (.full room) ⟨fs, .value⟩ .openObj
          = .more ⟨.obj [] "" :: fs, .keyOrClose⟩ := by
        simp [Machine.step, beginValue, Care.hasRoom, hroom]
      refine yields_of_step hopen ?_
      by_cases he : members = []
      · subst he
        exact yields_of_complete (fun ms hms => ⟨[], rfl, by simp⟩) rfl ts
      · obtain h | ⟨w, ⟨gs, rfl, hkeys⟩, h⟩ := yields_members members he [] "" room fs ts
        · refine Or.inl ?_
          rw [run_keyOrClose he]
          exact h
        · refine Or.inr ⟨.obj gs, ?_, ?_⟩
          · rintro ms ⟨⟩
            refine ⟨gs, rfl, fun g hg => ?_⟩
            simpa using hkeys g hg
          · rw [run_keyOrClose he]
            exact h
    · refine yields_of_refused ?_ ts
      simp [Machine.step, beginValue, Care.hasRoom, hroom]

theorem yields_items (items : List Json) (he : items ≠ []) (acc : List Json) (room : Nat)
    (fs : List Frame) (ts : List Token) :
    Yields room fs (fun _ => True) ⟨.arr acc :: fs, .value⟩
      (tokensOfItems items ++ .closeArr :: ts) ts := by
  match items, he with
  | [v], _ =>
    refine yields_of_inner (yields_value v room (.arr acc :: fs) (.closeArr :: ts)) fun w => ?_
    exact ⟨_, rfl, yields_of_complete (w := .arr (w :: acc).reverse) trivial rfl ts⟩
  | v :: w :: ws, _ =>
    rw [tokensOfItems, List.append_assoc]
    refine yields_of_inner (yields_value v room (.arr acc :: fs) _) fun x => ?_
    exact ⟨_, rfl, yields_of_step rfl (yields_items (w :: ws) (by simp) (x :: acc) room fs ts)⟩

theorem yields_members (members : Fields) (he : members ≠ []) (acc : Fields) (key : String)
    (room : Nat) (fs : List Frame) (ts : List Token) :
    Yields room fs (KeysIn (acc.map (·.1) ++ members.map (·.1))) ⟨.obj acc key :: fs, .key⟩
      (tokensOfMembers members ++ .closeObj :: ts) ts := by
  match members, he with
  | [(k, v)], _ =>
    refine yields_of_step rfl (yields_of_step rfl ?_)
    refine yields_of_inner (yields_value v room (.obj acc k :: fs) (.closeObj :: ts)) fun w => ?_
    refine ⟨_, rfl, yields_of_complete (w := .obj (acc.insert k w)) ⟨_, rfl, ?_⟩ rfl ts⟩
    intro g hg
    rcases Keyed.mem_insert hg with rfl | hg
    · simp
    · exact List.mem_append_left _ (List.mem_map_of_mem hg)
  | (k, v) :: m :: ms, _ =>
    rw [tokensOfMembers, List.cons_append, List.cons_append, List.append_assoc]
    refine yields_of_step rfl (yields_of_step rfl ?_)
    refine yields_of_inner (yields_value v room (.obj acc k :: fs) _) fun w => ?_
    refine ⟨_, rfl, yields_of_step rfl ?_⟩
    obtain h | ⟨x, ⟨gs, rfl, hkeys⟩, h⟩ :=
      yields_members (m :: ms) (by simp) (acc.insert k w) k room fs ts
    · exact Or.inl h
    · refine Or.inr ⟨.obj gs, ⟨gs, rfl, fun g hg => ?_⟩, h⟩
      rcases List.mem_append.1 (hkeys g hg) with hg | hg
      · obtain ⟨f, hf, hkey⟩ := List.mem_map.1 hg
        rcases Keyed.mem_insert hf with rfl | hf
        · simp [← hkey]
        · exact List.mem_append_left _ (hkey ▸ List.mem_map_of_mem hf)
      · exact List.mem_append_right _ (List.mem_cons_of_mem _ hg)

end

/-- What an object reads back as has no keys but its own. -/
theorem key_of_ofBytes?_bytes {fs gs : Fields} (h : ofBytes? (obj fs).bytes = some (.obj gs)) :
    ∀ g ∈ gs, ∃ f ∈ fs, f.1 = g.1 := by
  rw [ofBytes?, bytes, Utf8.decode_encode, ofUnits?, tokens_write] at h
  have hread := yields_value (.obj fs) 127 [] []
  rw [List.append_nil] at hread
  obtain herror | ⟨w, hw, hrun⟩ := hread
  · rw [readValue, Care.standard, herror] at h
    cases h
  · obtain ⟨gs', rfl, hkeys⟩ := hw fs rfl
    rw [readValue, Care.standard, hrun] at h
    cases h
    exact hkeys

/-- A number may be out of range, but it does not change what is read after it. -/
theorem ofBytes?_bytes_of_counted {k k' : String} (hkeys : k < k') (n : Int) {v : Json}
    (hv : v.isOrdered = true) :
    ofBytes? (obj [(k, .int n), (k', v)]).bytes = none ∨
      ∃ w, ofBytes? (obj [(k, .int n), (k', v)]).bytes = some (.obj [(k, w), (k', v.reread)]) := by
  have hread : Yields 127 [] (fun u => ∃ w, u = .obj [(k, w), (k', v.reread)]) ⟨[], .value⟩
      (tokensOf (obj [(k, .int n), (k', v)])) [] := by
    simp only [tokensOf, tokensOfMembers, List.cons_append, List.nil_append]
    refine yields_of_step rfl (yields_of_step rfl (yields_of_step rfl ?_))
    refine yields_of_inner (yields_value (.int n) 127 [.obj [] k] _) fun w => ?_
    refine ⟨_, rfl, yields_of_step rfl (yields_of_step rfl (yields_of_step rfl ?_))⟩
    have hfits : ([.obj [(k, w)] k'] : List Frame).length ≤ 127 := by simp
    have hrun := run_value v hv hfits [.closeObj]
    have hmembers : Keyed.insert [(k, w)] k' v.reread = [(k, w), (k', v.reread)] :=
      Keyed.insert_of_lt (by simpa using hkeys) v.reread
    unfold Yields
    split at hrun
    · refine Or.inr ⟨_, ⟨w, rfl⟩, ?_⟩
      rw [← hmembers]
      exact hrun
    · exact Or.inl hrun
  rw [ofBytes?, bytes, Utf8.decode_encode, ofUnits?, tokens_write, readValue, Care.standard]
  obtain herror | ⟨u, ⟨w, rfl⟩, hrun⟩ := hread
  · rw [herror]
    exact Or.inl rfl
  · rw [hrun]
    exact Or.inr ⟨w, rfl⟩

end AppBackend.Json
