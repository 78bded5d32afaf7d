import AppBackend.Proofs.Json.RoundTrip

/-!
# What reading gives

Whatever the text, a value that is read from it is ordered and not deeper than the reader allows:
numbers out of range are refused or read as binary64 numbers, members are put in order as they come,
and no container is opened beyond the room. Main statement: `fits_of_ofUnits?`.
-/

namespace AppBackend.Json

/-! ### Numbers -/

theorem isOrdered_of_value? {l : Literal} {v : Json} (h : l.value? = some v) :
    v.isOrdered = true ∧ v.depth = 0 := by
  unfold Literal.value? at h
  dsimp only at h
  split at h
  · rename_i hn
    rw [Bool.and_eq_true] at hn
    have hle := of_decide_eq_true hn.2
    unfold Literal.significandMax at hle
    cases h
    refine ⟨?_, rfl⟩
    simp only [isOrdered, Bool.and_eq_true, decide_eq_true_eq]
    omega
  split at h
  · rename_i hn
    simp only [Bool.and_eq_true, decide_eq_true_eq] at hn
    cases h
    refine ⟨?_, rfl⟩
    simp only [isOrdered, Bool.and_eq_true, decide_eq_true_eq]
    omega
  · obtain ⟨x, -, rfl⟩ := Option.map_eq_some_iff.1 h
    exact ⟨rfl, rfl⟩

/-! ### Open containers -/

/-- An ordered value that is not too deep where so many containers are open. -/
structure FitsAt (room opened : Nat) (v : Json) : Prop where
  ordered : v.isOrdered = true
  depth : opened + v.depth ≤ room

namespace Frame

def values : Frame → List Json
  | .arr items => items
  | .obj members _ => members.map (·.2)

def Sorted : Frame → Prop
  | .arr _ => True
  | .obj members _ => Keyed.Ascending members

end Frame

/-- Open containers that are in order, each inside the room, and all values in them fit. -/
def Stacked (room : Nat) : List Frame → Prop
  | [] => True
  | f :: fs => f.Sorted ∧ (∀ v ∈ f.values, FitsAt room (fs.length + 1) v) ∧
      fs.length + 1 ≤ room ∧ Stacked room fs

def Progress.Sound (room : Nat) : Progress → Prop
  | .more m => Stacked room m.frames
  | .done v => FitsAt room 0 v
  | .refused => True

section
variable {room : Nat} {fs : List Frame}

theorem fitsAt_atom {v : Json} (hv : v.isOrdered = true) (hd : v.depth = 0) {opened : Nat}
    (h : opened ≤ room) : FitsAt room opened v := ⟨hv, by omega⟩

theorem Stacked.length_le (h : Stacked room fs) : fs.length ≤ room := by
  cases fs with
  | nil => exact Nat.zero_le _
  | cons f fs => exact h.2.2.1

theorem sound_complete {v : Json} (hv : FitsAt room fs.length v) (h : Stacked room fs) :
    (complete v fs).Sound room := by
  match fs, h with
  | [], _ => exact hv
  | .arr items :: fs, ⟨hs, hvalues, hroom, hrest⟩ =>
    refine ⟨hs, fun w hw => ?_, hroom, hrest⟩
    rcases List.mem_cons.1 hw with rfl | hw
    · exact hv
    · exact hvalues w hw
  | .obj members key :: fs, ⟨hs, hvalues, hroom, hrest⟩ =>
    refine ⟨hs.insert key v, fun w hw => ?_, hroom, hrest⟩
    obtain ⟨m, hm, rfl⟩ := List.mem_map.1 hw
    rcases Keyed.mem_insert hm with rfl | hm
    · exact hv
    · exact hvalues _ (List.mem_map_of_mem hm)

theorem depthOfItems_le {vs : List Json} {n : Nat} (h : ∀ v ∈ vs, v.depth ≤ n) :
    depthOfItems vs ≤ n := by
  induction vs with
  | nil => exact Nat.zero_le n
  | cons v vs ih =>
    rw [depthOfItems, Nat.max_le]
    exact ⟨h v (List.mem_cons_self ..), ih fun w hw => h w (List.mem_cons_of_mem _ hw)⟩

theorem sound_close_arr {items : List Json} (h : Stacked room (.arr items :: fs)) :
    (complete (.arr items.reverse) fs).Sound room := by
  obtain ⟨-, hvalues, hroom, hrest⟩ := h
  refine sound_complete ⟨?_, ?_⟩ hrest
  · rw [isOrdered, areOrdered_iff]
    exact fun v hv => (hvalues v (List.mem_reverse.1 hv)).ordered
  · have hdepth : depthOfItems items.reverse ≤ room - (fs.length + 1) := by
      refine depthOfItems_le fun v hv => ?_
      have := (hvalues v (List.mem_reverse.1 hv)).depth
      omega
    rw [depth]
    omega

theorem sound_close_obj {members : Fields} {key : String}
    (h : Stacked room (.obj members key :: fs)) : (complete (.obj members) fs).Sound room := by
  obtain ⟨hsorted, hvalues, hroom, hrest⟩ := h
  refine sound_complete ⟨?_, ?_⟩ hrest
  · exact isOrdered_obj.2 ⟨hsorted, fun m hm => (hvalues m.2 (List.mem_map_of_mem hm)).ordered⟩
  · have hdepth : depthOfMembers members ≤ room - (fs.length + 1) := by
      refine depthOfMembers_le fun m hm => ?_
      have := (hvalues m.2 (List.mem_map_of_mem hm)).depth
      omega
    rw [depth]
    omega

/-! ### Steps -/

theorem sound_beginValue (h : Stacked room fs) (t : Token) :
    (beginValue (.full room) fs t).Sound room := by
  have hatom {v : Json} (hv : v.isOrdered = true) (hd : v.depth = 0) :
      (complete v fs).Sound room := sound_complete (fitsAt_atom hv hd h.length_le) h
  cases t with
  | null => exact hatom rfl rfl
  | bool b => exact hatom rfl rfl
  | number l =>
    unfold beginValue
    dsimp only [Care.number?]
    split
    · rename_i v hv
      obtain ⟨hordered, hdepth⟩ := isOrdered_of_value? hv
      exact hatom hordered hdepth
    · trivial
  | text s =>
    unfold beginValue
    dsimp only
    split
    · exact hatom rfl rfl
    · trivial
  | openArr =>
    unfold beginValue
    dsimp only
    split
    · rename_i hroom
      exact ⟨trivial, by simp [Frame.values], of_decide_eq_true hroom, h⟩
    · trivial
  | openObj =>
    unfold beginValue
    dsimp only
    split
    · rename_i hroom
      exact ⟨List.Pairwise.nil, by simp [Frame.values], of_decide_eq_true hroom, h⟩
    · trivial
  | _ => trivial

theorem sound_takeKey (h : Stacked room fs) (s : Option String) :
    (takeKey (.full room) fs s).Sound room := by
  unfold takeKey
  split
  · exact h
  · trivial

theorem sound_step {m : Machine} (h : Stacked room m.frames) (t : Token) :
    (m.step (.full room) t).Sound room := by
  obtain ⟨fs, expect⟩ := m
  unfold Machine.step
  dsimp only at h ⊢
  split
  · exact sound_beginValue h t
  · exact sound_close_arr h
  · exact sound_beginValue h t
  · exact sound_close_obj h
  · exact sound_takeKey h _
  · exact sound_takeKey h _
  · exact h
  · exact h
  · exact sound_close_arr h
  · exact h
  · exact sound_close_obj h
  · trivial

/-! ### Whole texts -/

theorem fits_of_run {m : Machine} (h : Stacked room m.frames) {ts rest : List Token} {v : Json}
    (hrun : m.run (.full room) ts = .ok (v, rest)) : FitsAt room 0 v := by
  induction ts generalizing m with
  | nil => cases hrun
  | cons t ts ih =>
    have hstep := sound_step h t
    rw [run_cons] at hrun
    cases hp : m.step (.full room) t with
    | more m' =>
      rw [hp] at hstep hrun
      exact ih hstep hrun
    | done w =>
      rw [hp] at hstep hrun
      cases hrun
      exact hstep
    | refused =>
      rw [hp] at hrun
      cases hrun

end

/-- What a text reads as is ordered and not too deep. -/
theorem fits_of_ofUnits? {units : List (Option Char)} {v : Json} (h : ofUnits? units = some v) :
    v.isOrdered = true ∧ v.depth ≤ 127 := by
  unfold ofUnits? at h
  split at h
  · rename_i w hread
    cases h
    obtain ⟨hordered, hdepth⟩ := fits_of_run (m := ⟨[], .value⟩) trivial hread
    exact ⟨hordered, by omega⟩
  · cases h

end AppBackend.Json
