import AppBackend.Proofs.Server.Exchange

/-!
# Parameters on their way

The parameters of a draft are written into the target of a request, and the server reads them out of
the target again. They get through as they are when nothing before them in the target ends the path:
neither a question mark nor a number sign. Main statement: `params_of_sent`.
-/

namespace AppBackend

/-! ### Percent coding and forms -/

namespace Percent

theorem isUnreserved_upperDigit : ∀ n < 16, isUnreserved (Hex.upperDigit n).toNat = true := by
  decide

theorem mem_encodeOctet {b : UInt8} {c : Char} (h : c ∈ encodeOctet b) :
    isUnreserved c.toNat = true ∨ c = '%' := by
  have hb : b.toNat < 256 := b.toNat_lt
  unfold encodeOctet at h
  split at h
  · rename_i hu
    rw [List.mem_singleton.1 h, toNat_ofNat_ascii (lt_of_isUnreserved hu)]
    exact Or.inl hu
  · simp only [List.mem_cons, List.not_mem_nil, or_false] at h
    rcases h with rfl | rfl | rfl
    · exact Or.inr rfl
    · exact Or.inl (isUnreserved_upperDigit _ (by omega))
    · exact Or.inl (isUnreserved_upperDigit _ (by omega))

/-- A reserved character other than the percent sign is never written. -/
theorem not_mem_encode {c : Char} (hc : isUnreserved c.toNat = false) (hp : c ≠ '%') (s : String) :
    c ∉ encode s := by
  intro h
  obtain ⟨b, -, hb⟩ := List.mem_flatMap.1 h
  rcases mem_encodeOctet hb with hu | he
  · rw [hc] at hu
    cases hu
  · exact hp he

end Percent

namespace Form

theorem decodePart_encode (s : String) : decodePart (Percent.encode s) = s := by
  have hplain : ((Percent.encode s).map fun c => if c = '+' then ' ' else c)
      = Percent.encode s := by
    refine (List.map_congr_left fun c hc => ?_).trans (List.map_id _)
    have hne : c ≠ '+' := by
      rintro rfl
      exact Percent.not_mem_encode (by decide) (by decide) s hc
    exact if_neg hne
  rw [decodePart, hplain, Percent.decode_encode, Utf8.lossy_ofString]

theorem decodePiece_paramText (p : String × String) : decodePiece (Draft.paramText p) = p := by
  have hkey : '=' ∉ Percent.encode p.1 := Percent.not_mem_encode (by decide) (by decide) p.1
  rw [decodePiece, Draft.paramText, Text.cut?_append _ hkey]
  simp only [decodePart_encode]

theorem not_mem_paramText {c : Char} (hc : Percent.isUnreserved c.toNat = false) (hp : c ≠ '%')
    (he : c ≠ '=') (p : String × String) : c ∉ Draft.paramText p := by
  rw [Draft.paramText, List.mem_append, List.mem_cons]
  rintro (h | h | h)
  · exact Percent.not_mem_encode hc hp p.1 h
  · exact he h
  · exact Percent.not_mem_encode hc hp p.2 h

/-- Parameters that are written as a form read back as they are. -/
theorem pairs_joined (ps : Pairs) : pairs (Text.joined '&' (ps.map Draft.paramText)) = ps := by
  by_cases hps : ps = []
  · subst hps
    rfl
  have hsplit : Text.split '&' (Text.joined '&' (ps.map Draft.paramText))
      = ps.map Draft.paramText := by
    refine Text.split_joined (by simpa using hps) fun t ht => ?_
    obtain ⟨p, -, rfl⟩ := List.mem_map.1 ht
    exact not_mem_paramText (by decide) (by decide) (by decide) p
  have hfull : (ps.map Draft.paramText).filter (fun t => !t.isEmpty) = ps.map Draft.paramText := by
    rw [List.filter_eq_self]
    intro t ht
    obtain ⟨p, -, rfl⟩ := List.mem_map.1 ht
    simp [Draft.paramText]
  rw [pairs, hsplit, hfull, List.map_map]
  exact List.map_id'' decodePiece_paramText ps

end Form

/-! ### Targets -/

/-- Nothing in a text ends the path of a target. -/
def Unmarked (cs : List Char) : Prop := '?' ∉ cs ∧ '#' ∉ cs

instance (cs : List Char) : Decidable (Unmarked cs) :=
  inferInstanceAs (Decidable ('?' ∉ cs ∧ '#' ∉ cs))

theorem Unmarked.append {cs ds : List Char} (hc : Unmarked cs) (hd : Unmarked ds) :
    Unmarked (cs ++ ds) := by
  constructor
  · rw [List.mem_append]
    rintro (h | h)
    · exact hc.1 h
    · exact hd.1 h
  · rw [List.mem_append]
    rintro (h | h)
    · exact hc.2 h
    · exact hd.2 h

theorem unmarked_encode (s : String) : Unmarked (Percent.encode s) :=
  ⟨Percent.not_mem_encode (by decide) (by decide) s,
    Percent.not_mem_encode (by decide) (by decide) s⟩

namespace Target

/-- What follows the first question mark, less a fragment. -/
def queryOf? (cs : List Char) : Option (List Char) :=
  (Text.cut? '?' (withoutFragment cs)).map (·.2)

theorem withoutFragment_append {cs : List Char} (h : '#' ∉ cs) (ds : List Char) :
    withoutFragment (cs ++ ds) = cs ++ withoutFragment ds := by
  refine List.takeWhile_append_of_pos fun c hc => ?_
  rw [bne_iff_ne]
  rintro rfl
  exact h hc

theorem cut?_append_left {sep : Char} {cs : List Char} (h : sep ∉ cs) (ds : List Char) :
    (Text.cut? sep (cs ++ ds)).map (·.2) = (Text.cut? sep ds).map (·.2) := by
  induction cs with
  | nil => rfl
  | cons c cs ih =>
    have hc : c ≠ sep := fun e => h (e ▸ List.mem_cons_self ..)
    rw [List.cons_append, Text.cut?, if_neg hc, Option.map_map]
    exact ih fun hm => h (List.mem_cons_of_mem _ hm)

theorem queryOf?_append {cs : List Char} (h : Unmarked cs) (ds : List Char) :
    queryOf? (cs ++ ds) = queryOf? ds := by
  rw [queryOf?, withoutFragment_append h.2, cut?_append_left h.1, queryOf?]

theorem queryOf?_of_pathAndQuery? {cs : List Char} {path : String} {query : Option String}
    (h : pathAndQuery? cs = some (path, query)) : query = (queryOf? cs).map String.ofList := by
  unfold pathAndQuery? at h
  unfold queryOf?
  cases hcut : Text.cut? '?' (withoutFragment cs) with
  | none =>
    simp only [hcut] at h
    split at h
    · exact (congrArg Prod.snd (Option.some.inj h)).symm
    · cases h
  | some p =>
    simp only [hcut] at h
    split at h
    · exact (congrArg Prod.snd (Option.some.inj h)).symm
    · cases h

theorem unmarked_of_all {p : Char → Bool} (hq : p '?' = false) (hn : p '#' = false)
    {cs : List Char} (h : ∀ c ∈ cs, p c = true) : Unmarked cs := by
  constructor
  · intro hm
    rw [h _ hm] at hq
    cases hq
  · intro hm
    rw [h _ hm] at hn
    cases hn

theorem unmarked_of_usual {name known : List Char} (h : known ∈ ["http".toList, "https".toList])
    (hn : name.map Char.toLower = known.map Char.toLower) : Unmarked name := by
  have hlower : ∀ c ∈ name, c.toLower.isAlpha = true := by
    intro c hc
    have hm : c.toLower ∈ known.map Char.toLower := hn ▸ List.mem_map_of_mem hc
    have hall : (["http".toList, "https".toList].all fun k =>
        (k.map Char.toLower).all Char.isAlpha) = true := by decide
    exact List.all_eq_true.1 (List.all_eq_true.1 hall known h) _ hm
  exact unmarked_of_all (p := fun c => c.toLower.isAlpha) (by decide) (by decide) hlower

theorem unmarked_of_scheme? {cs rest : List Char} {scheme : String}
    (h : scheme? cs = some (scheme, rest)) : ∃ before, Unmarked before ∧ cs = before ++ rest := by
  unfold scheme? at h
  split at h
  · rename_i name rest' hcut
    have hname : Unmarked name ∧ rest' = rest := by
      dsimp only at h
      split at h
      · rename_i known hknown
        have hmem := List.mem_of_find?_eq_some hknown
        have hsame := List.find?_some hknown
        rw [Text.sameName, beq_iff_eq, String.toList_ofList] at hsame
        refine ⟨unmarked_of_usual ?_ hsame,
          congrArg Prod.snd (Option.some.inj h)⟩
        rcases List.mem_cons.1 hmem with rfl | hmem
        · exact List.mem_cons_self ..
        · rw [List.mem_singleton.1 hmem]
          exact List.mem_cons_of_mem _ (List.mem_cons_self ..)
      · split at h
        · rename_i hall
          exact ⟨unmarked_of_all (by decide) (by decide) (List.all_eq_true.1 hall),
            congrArg Prod.snd (Option.some.inj h)⟩
        · cases h
    refine ⟨name ++ "://".toList, hname.1.append (by decide), ?_⟩
    rw [(Text.eq_of_cut? hcut).1, hname.2]
    simp
  · cases h

/-- The query of a target that has a path is what follows the first question mark of its text. -/
theorem query_of_ofChars? {cs : List Char} {t : Target} (h : ofChars? cs = some t)
    (hp : t.path ≠ "") : t.query = (queryOf? cs).map String.ofList := by
  unfold ofChars? at h
  split at h
  · cases h
  · rw [← Option.some.inj h]
    rfl
  · obtain ⟨⟨path, query⟩, hpq, rfl⟩ := Option.map_eq_some_iff.1 h
    exact queryOf?_of_pathAndQuery? hpq
  · split at h
    · split at h
      · rw [← Option.some.inj h] at hp
        exact absurd rfl hp
      · cases h
    · rename_i scheme rest hscheme
      obtain ⟨before, hbefore, hcs⟩ := unmarked_of_scheme? hscheme
      dsimp only at h
      split at h
      · cases h
      obtain ⟨⟨path, query⟩, hpq, rfl⟩ := Option.map_eq_some_iff.1 h
      let authority := rest.takeWhile fun c => !endsAuthority c
      have hauthority : Unmarked authority :=
        unmarked_of_all (p := fun c => !endsAuthority c) (by decide) (by decide)
          (List.all_eq_true.1 List.all_takeWhile)
      have hrest : rest = authority ++ rest.drop authority.length :=
        (List.prefix_iff_eq_append.1 (List.takeWhile_prefix _)).symm
      rw [hcs, queryOf?_append hbefore, hrest, queryOf?_append hauthority]
      exact queryOf?_of_pathAndQuery? hpq

end Target

/-! ### From the draft to the call -/

theorem mem_joined {sep c : Char} {ps : List (List Char)} (h : c ∈ Text.joined sep ps) :
    c = sep ∨ ∃ p ∈ ps, c ∈ p := by
  induction ps with
  | nil => cases h
  | cons p ps ih =>
    cases ps with
    | nil => exact Or.inr ⟨p, List.mem_cons_self .., h⟩
    | cons q ps =>
      rw [Text.joined, List.mem_append, List.mem_cons] at h
      rcases h with h | h | h
      · exact Or.inr ⟨p, List.mem_cons_self .., h⟩
      · exact Or.inl h
      · rcases ih h with hs | ⟨r, hr, hm⟩
        · exact Or.inl hs
        · exact Or.inr ⟨r, List.mem_cons_of_mem _ hr, hm⟩

/-- The target of a draft up to its parameters. -/
def Draft.place (d : Draft) : List Char :=
  d.credentials.endpoint.toList
    ++ (if d.credentials.endpoint.toList.getLast? = some '/' then [] else ['/'])
    ++ "1/".toList ++ d.credentials.tenant.toList ++ d.path.toList

theorem Draft.toList_url (d : Draft) : d.url.toList = d.place ++ Draft.query d.params := by
  unfold Draft.url Draft.place
  dsimp only
  split <;> simp [String.toList_append]

theorem Target.queryOf?_query (ps : Pairs) :
    ((Target.queryOf? (Draft.query ps)).map String.ofList).getD ""
      = String.ofList (Text.joined '&' ((ps.filter Draft.isFull).map Draft.paramText)) := by
  unfold Draft.query
  generalize ps.filter Draft.isFull = full
  cases full with
  | nil => rfl
  | cons p full =>
    have hmark : '#' ∉ '?' :: Text.joined '&' ((p :: full).map Draft.paramText) := by
      rw [List.mem_cons]
      rintro (h | h)
      · exact absurd h (by decide)
      · rcases mem_joined h with h | ⟨t, ht, hm⟩
        · exact absurd h (by decide)
        · obtain ⟨q, -, rfl⟩ := List.mem_map.1 ht
          exact Form.not_mem_paramText (by decide) (by decide) (by decide) q hm
    have hself := Target.withoutFragment_append hmark []
    rw [List.append_nil, show Target.withoutFragment [] = [] from rfl, List.append_nil] at hself
    rw [Target.queryOf?, hself]
    rfl

namespace Server

/-- The parameters that the server finds are those of the draft whose halves are both full. -/
theorem params_of_sent {d : Draft} {t : Transfer} {c : Call} {r : Route} (hd : Unmarked d.place)
    (hurl : t.request.url = d.url) (h : Backend.callOf? t = some c)
    (hr : Route.ofPath? c.path = some r) : c.params = d.params.filter Draft.isFull := by
  obtain ⟨-, -, target, htarget, hpath, hquery⟩ := callOf?_spec h
  have hne : target.path ≠ "" := by
    intro hp
    rw [hpath, hp] at hr
    cases hr
  have htext : Target.ofChars? d.url.toList = some target := by
    unfold Target.ofText? at htarget
    rw [hurl] at htarget
    split at htarget
    · cases htarget
    · exact htarget
  rw [Call.params, hquery, Target.query_of_ofChars? htext hne, Draft.toList_url,
    Target.queryOf?_append hd, Target.queryOf?_query, String.toList_ofList, Form.pairs_joined]

end Server
end AppBackend
