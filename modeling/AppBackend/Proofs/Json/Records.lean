import AppBackend.Json.Record
import AppBackend.Proofs.Json.RoundTrip

/-!
# Records read back

The text of an object read as a record. Its members stand in any order, so the object need not be
in order itself; what is read is every member under its name. Main statement: `ofUnits_write`, an
object whose members are all known, each of its shape, is read whole.
-/

namespace AppBackend.Json

/-! ### Values of a shape -/

theorem readValue_tokensOf {v : Json} (hv : v.isPlain = true) {room : Nat} (hd : v.depth ≤ room)
    (ts : List Token) : readValue (.full room) (tokensOf v ++ ts) = .ok (v, ts) := by
  rw [readValue_tokensOf_of_isOrdered (isOrdered_of_isPlain hv), if_pos hd, reread_of_isPlain hv]

/-- The text of a value begins in a way that its shape admits. -/
theorem admits_of_conforms {shape : Shape} {v : Json} (hv : v.isPlain = true)
    (h : shape.conforms v = true) (ts : List Token) :
    ((tokensOf v ++ ts).head?.map shape.admits).getD false = true := by
  cases v with
  | float x => cases hv
  | _ => cases shape <;> first | rfl | cases h

theorem Shape.read_tokensOf {shape : Shape} {v : Json} (hv : v.isPlain = true) {room : Nat}
    (hd : v.depth ≤ room) (h : shape.conforms v = true) (ts : List Token) :
    shape.read (.full room) (tokensOf v ++ ts) = .ok (v, ts) := by
  rw [Shape.read, if_pos (admits_of_conforms hv h ts), readValue_tokensOf hv hd]
  exact if_pos h

/-! ### Members -/

namespace Schema

variable {s : Schema} {room : Nat}

/-- A member that is known and of its shape, and that has a text. -/
structure Fits (s : Schema) (m : String × Json) : Prop where
  known : ∃ d, s.member? m.1 = some d ∧ d.shape.conforms m.2 = true
  plain : m.2.isPlain = true

theorem Fits.readMember {m : String × Json} (h : s.Fits m) (hd : m.2.depth ≤ room)
    (ts : List Token) :
    s.readMember (.full room) m.1 (tokensOf m.2 ++ ts) = .ok (m.2, ts) := by
  obtain ⟨d, hmember, hconforms⟩ := h.known
  rw [Schema.readMember, hmember]
  exact Shape.read_tokensOf h.plain hd hconforms ts

theorem Fits.keep {m : String × Json} (h : s.Fits m) (seen : Fields) :
    s.keep seen m.1 m.2 = seen.insert m.1 m.2 := by
  obtain ⟨d, hmember, -⟩ := h.known
  rw [Schema.keep, hmember]
  rfl

/-- One member read: what follows it says whether there are more. -/
theorem readMembers_of_read {care : Care} {seen : Fields} {name : String} {ts rest : List Token}
    {v : Json} (hnew : seen.get? name = none) :
    s.readMember care name ts = .ok (v, rest) →
    s.readMembers care seen (.text (some name) :: .colon :: ts) =
      match rest with
      | .comma :: rest => s.readMembers care (s.keep seen name v) rest
      | .closeObj :: rest => s.finish (s.keep seen name v) rest
      | _ => .error .malformed := by
  intro h
  rw [readMembers]
  simp only [hnew, Option.isSome_none, Bool.false_eq_true, if_false]
  split
  · rename_i hread
    obtain ⟨rfl, rfl⟩ := Prod.mk.inj (Except.ok.inj (h.symm.trans hread))
    rfl
  · rename_i hread
    obtain ⟨rfl, rfl⟩ := Prod.mk.inj (Except.ok.inj (h.symm.trans hread))
    rfl
  · rename_i hcomma hclose hread
    obtain rfl := Except.ok.inj (h.symm.trans hread)
    split
    · exact absurd rfl (hcomma _ _)
    · exact absurd rfl (hclose _ _)
    · rfl
  · rename_i hread
    cases h.symm.trans hread

/-- Members with new names, no two the same, are all read and put with those read before. -/
theorem readMembers_tokensOf {ms : Fields} (hne : ms ≠ []) (hfits : ∀ m ∈ ms, s.Fits m)
    (hdepth : depthOfMembers ms ≤ room) (hnames : ms.Pairwise fun m n => m.1 ≠ n.1) {seen : Fields}
    (hnew : ∀ m ∈ ms, seen.get? m.1 = none) (ts : List Token) :
    s.readMembers (.full room) seen (tokensOfMembers ms ++ .closeObj :: ts)
      = s.finish (seen.merge ms) ts := by
  match ms, hne with
  | [(k, v)], _ =>
    have hmem : (k, v) ∈ [(k, v)] := List.mem_cons_self ..
    have hv := hfits _ hmem
    have hread := hv.readMember (Nat.le_trans (depth_le_of_mem hmem) hdepth) (.closeObj :: ts)
    rw [tokensOfMembers, List.cons_append, List.cons_append,
      readMembers_of_read (hnew _ hmem) hread, hv.keep]
    rfl
  | (k, v) :: m :: rest, _ =>
    have hmem : (k, v) ∈ (k, v) :: m :: rest := List.mem_cons_self ..
    have hv := hfits _ hmem
    have hread := hv.readMember (Nat.le_trans (depth_le_of_mem hmem) hdepth)
      (.comma :: (tokensOfMembers (m :: rest) ++ .closeObj :: ts))
    obtain ⟨hfirst, hrest⟩ := List.pairwise_cons.1 hnames
    have hlater : ∀ n ∈ m :: rest, (seen.insert k v).get? n.1 = none := by
      intro n hn
      rw [Keyed.get?_insert_of_ne seen v (hfirst n hn)]
      exact hnew n (List.mem_cons_of_mem _ hn)
    have hdepth' : depthOfMembers (m :: rest) ≤ room := by
      rw [depthOfMembers] at hdepth
      exact Nat.le_trans (Nat.le_max_right ..) hdepth
    rw [tokensOfMembers, List.cons_append, List.cons_append, List.append_assoc, List.cons_append,
      readMembers_of_read (hnew _ hmem) hread, hv.keep]
    exact readMembers_tokensOf (by simp) (fun n hn => hfits n (List.mem_cons_of_mem _ hn)) hdepth'
      hrest hlater ts

/-! ### Whole records -/

/-- An object all of whose members are known and of their shapes, no two of one name, is read
whole. -/
theorem ofUnits_write {ms : Fields} (hne : ms ≠ []) (hfits : ∀ m ∈ ms, s.Fits m)
    (hdepth : (Json.obj ms).depth ≤ 127) (hnames : ms.Pairwise fun m n => m.1 ≠ n.1)
    (hrequired : ∀ n ∈ s.required, ((Keyed.ofList ms).get? n).isSome = true) :
    s.ofUnits ((write (.obj ms)).map some) = .ok (Keyed.ofList ms) := by
  have hroom : depthOfMembers ms ≤ 126 := by
    rw [depth] at hdepth
    omega
  have hmembers : s.readMembers (.full 126) [] (tokensOfMembers ms ++ [.closeObj])
      = .ok (Keyed.ofList ms, []) := by
    rw [readMembers_tokensOf hne hfits hroom hnames (fun _ _ => rfl) [], finish]
    exact if_pos (List.all_eq_true.2 hrequired)
  have hread : s.read .standard (.openObj :: (tokensOfMembers ms ++ [.closeObj]))
      = .ok (Keyed.ofList ms, []) := by
    match ms, hne with
    | [_], _ => exact hmembers
    | _ :: _ :: _, _ => exact hmembers
  rw [ofUnits, tokens_write, tokensOf, hread]

end Schema
end AppBackend.Json
