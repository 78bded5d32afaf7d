import AppBackend.Proofs.Server.ConditionalRequests

/-!
# Paths on their way

The path that a client puts together and the route that the server finds. Credentials lead to the
server when their endpoint has no path of its own and their tenant is the server's; then the path of
a draft comes right after the tenant. Main statements: `toList_path_of_sent`, where a request
arrives, and `ofPath?_object`, `ofPath?_bucketObjects` and `ofPath?_file`, the route it takes there.
-/

namespace AppBackend

/-! ### Targets below an endpoint -/

theorem Unmarked.of_append {cs ds : List Char} (h : Unmarked (cs ++ ds)) : Unmarked ds :=
  ⟨fun hm => h.1 (List.mem_append_right _ hm), fun hm => h.2 (List.mem_append_right _ hm)⟩

namespace Target

/-- A text with a slash at its end. -/
def slashed (cs : List Char) : List Char := cs ++ if cs.getLast? = some '/' then [] else ['/']

theorem takeWhile_append_of_not_mem {c : Char} {cs : List Char} (h : c ∉ cs) (ds : List Char) :
    (cs ++ ds).takeWhile (· != c) = cs ++ ds.takeWhile (· != c) := by
  refine List.takeWhile_append_of_pos fun d hd => ?_
  rw [bne_iff_ne]
  rintro rfl
  exact h hd

/-- What comes before the first question mark and before a fragment. -/
def pathOf (cs : List Char) : List Char := (withoutFragment cs).takeWhile (· != '?')

theorem path_of_pathAndQuery? {cs : List Char} {path : String} {query : Option String}
    (h : pathAndQuery? cs = some (path, query)) : path = String.ofList (pathOf cs) := by
  unfold pathAndQuery? at h
  rw [pathOf]
  cases hcut : Text.cut? '?' (withoutFragment cs) with
  | none =>
    simp only [hcut] at h
    have hall := takeWhile_append_of_not_mem (Text.cut?_eq_none.1 hcut) []
    rw [List.append_nil, List.takeWhile_nil, List.append_nil] at hall
    rw [hall]
    split at h
    · exact (congrArg Prod.fst (Option.some.inj h)).symm
    · cases h
  | some p =>
    obtain ⟨hwhole, hbefore⟩ := Text.eq_of_cut? hcut
    simp only [hcut] at h
    rw [hwhole, takeWhile_append_of_not_mem hbefore, List.takeWhile_cons_of_neg (by decide),
      List.append_nil]
    split at h
    · exact (congrArg Prod.fst (Option.some.inj h)).symm
    · cases h

theorem pathOf_append {cs : List Char} (h : Unmarked cs) (ds : List Char) :
    pathOf (cs ++ ds) = cs ++ pathOf ds := by
  rw [pathOf, withoutFragment_append h.2, takeWhile_append_of_not_mem h.1, pathOf]

theorem pathOf_query {ds : List Char} (h : ds = [] ∨ ∃ rest, ds = '?' :: rest) :
    pathOf ds = [] := by
  rcases h with rfl | ⟨rest, rfl⟩ <;> rfl

theorem pathOf_isPrefix (cs : List Char) {ds : List Char}
    (h : ds = [] ∨ ∃ rest, ds = '?' :: rest) : pathOf (cs ++ ds) <+: cs := by
  induction cs with
  | nil => exact (pathOf_query h).symm ▸ List.prefix_rfl
  | cons c cs ih =>
    by_cases hquery : c = '?'
    · subst hquery
      exact List.nil_prefix
    by_cases hfragment : c = '#'
    · subst hfragment
      exact List.nil_prefix
    have hc : Unmarked [c] :=
      ⟨by simpa using Ne.symm hquery, by simpa using Ne.symm hfragment⟩
    have hcons : pathOf (c :: cs ++ ds) = c :: pathOf (cs ++ ds) := pathOf_append hc (cs ++ ds)
    rw [hcons]
    exact (List.prefix_cons_inj c).2 ih

theorem path_of_unmarked {cs : List Char} (h : Unmarked cs) {path : String}
    {query : Option String} (hp : pathAndQuery? cs = some (path, query)) :
    path = String.ofList cs := by
  have hall : pathOf cs = cs := by
    rw [← List.append_nil cs, pathOf_append h, pathOf_query (Or.inl rfl), List.append_nil]
  rw [path_of_pathAndQuery? hp, hall]

theorem path_ne_of_slash {ds : List Char} {path : String} {query : Option String}
    (h : pathAndQuery? ('/' :: ds) = some (path, query)) : path ≠ "" := by
  intro he
  have hlist := String.ofList_injective (((path_of_pathAndQuery? h).symm.trans he).trans
    (show "" = String.ofList [] from rfl))
  cases hlist

/-- What follows the authority is not looked at for the scheme. -/
theorem scheme?_append {cs rest : List Char} {scheme : String}
    (h : scheme? cs = some (scheme, rest)) (ds : List Char) :
    scheme? (cs ++ ds) = some (scheme, rest ++ ds) := by
  unfold scheme? at h
  split at h
  · rename_i name rest' hcut
    obtain ⟨rfl, hname⟩ := Text.eq_of_cut? hcut
    have happend : (name ++ ':' :: '/' :: '/' :: rest') ++ ds
        = name ++ ':' :: '/' :: '/' :: (rest' ++ ds) := by simp
    simp only [scheme?, happend, Text.cut?_append _ hname]
    dsimp only at h
    cases hfind : ["http", "https"].find? (Text.sameName (String.ofList name)) with
    | some known =>
      rw [hfind] at h
      cases h
      rfl
    | none =>
      rw [hfind] at h
      dsimp only at h ⊢
      split at h
      · rename_i hall
        cases h
        rw [if_pos hall]
      · cases h
  · cases h

/-- A target with a scheme: an authority up to the first character that ends it, and the rest. -/
theorem ofChars?_of_scheme? {cs rest : List Char} {scheme : String}
    (h : scheme? cs = some (scheme, rest)) (hne : cs.head? ≠ some '/') :
    ofChars? cs =
      let authority := rest.takeWhile fun c => !endsAuthority c
      if authority.isEmpty || maxScheme < scheme.length || !isAuthority authority then none
      else (pathAndQuery? (rest.drop authority.length)).map fun (path, query) =>
        { scheme := some scheme, authority := some (String.ofList authority),
          path := if path = "" then "/" else path, query } := by
  unfold ofChars?
  split
  · cases h
  · cases h
  · exact absurd rfl hne
  · rw [h]

theorem path_ne_of_no_scheme {cs : List Char} {t : Target} (h : ofChars? cs = some t)
    (hne : cs.head? ≠ some '/') (hscheme : scheme? cs = none) : t.path ≠ "/" := by
  unfold ofChars? at h
  split at h
  · cases h
  · rw [← Option.some.inj h]
    decide
  · exact absurd rfl hne
  · rw [hscheme] at h
    dsimp only at h
    split at h
    · rw [← Option.some.inj h]
      exact (by decide : ("" : String) ≠ "/")
    · cases h

theorem authority_append {authority : List Char}
    (h : ∀ c ∈ authority, endsAuthority c = false) (ds : List Char) :
    (authority ++ '/' :: ds).takeWhile (fun c => !endsAuthority c) = authority := by
  have hslash : (!endsAuthority '/') = false := rfl
  rw [List.takeWhile_append_of_pos fun c hc => by rw [h c hc]; rfl, List.takeWhile_cons, hslash]
  simp

theorem slashed_eq_append (cs : List Char) : ∃ ds, slashed cs = cs ++ ds ∧
    ((cs.getLast? = some '/' ∧ ds = []) ∨ (cs.getLast? ≠ some '/' ∧ ds = ['/'])) := by
  by_cases h : cs.getLast? = some '/'
  · exact ⟨[], by rw [slashed, if_pos h], Or.inl ⟨h, rfl⟩⟩
  · exact ⟨['/'], by rw [slashed, if_neg h], Or.inr ⟨h, rfl⟩⟩

/-- A text whose authority is followed by nothing or by one slash only. -/
theorem scheme?_slashed {cs authority tail : List Char} {scheme : String}
    (h : scheme? cs = some (scheme, authority ++ tail)) (hne : authority ≠ [])
    (hends : ∀ c ∈ authority, endsAuthority c = false) (htail : tail = [] ∨ tail = ['/'])
    (ds : List Char) : scheme? (slashed cs ++ ds) = some (scheme, authority ++ '/' :: ds) := by
  obtain ⟨before, -, hcs⟩ := unmarked_of_scheme? h
  obtain ⟨slash, hslashed, hslash⟩ := slashed_eq_append cs
  have hwhole : tail ++ slash = ['/'] := by
    rcases htail with rfl | rfl
    · have hlast : cs.getLast? = some (authority.getLast hne) := by
        rw [hcs, List.append_nil, List.getLast?_append, List.getLast?_eq_some_getLast hne]
        rfl
      have hnot : cs.getLast? ≠ some '/' := by
        rw [hlast]
        intro he
        have hfalse := hends _ (List.getLast_mem hne)
        rw [Option.some.inj he] at hfalse
        exact absurd hfalse (by decide)
      rcases hslash with ⟨hyes, -⟩ | ⟨-, rfl⟩
      · exact absurd hyes hnot
      · rfl
    · have hyes : cs.getLast? = some '/' := by
        rw [hcs, List.getLast?_append, List.getLast?_append]
        rfl
      rcases hslash with ⟨-, rfl⟩ | ⟨hnot, -⟩
      · rfl
      · exact absurd hyes hnot
  have hrest : authority ++ tail ++ (slash ++ ds) = authority ++ '/' :: ds := by
    rw [List.append_assoc, ← List.append_assoc tail, hwhole]
    rfl
  rw [hslashed, List.append_assoc, scheme?_append h, hrest]

/-- A target whose path is only a slash: what is put after the slash is all the path there is. -/
theorem ofChars?_slashed_append {cs : List Char} {t : Target} (hcs : Unmarked cs)
    (h : ofChars? cs = some t) (hroot : t.path = "/") (ds : List Char) :
    ofChars? (slashed cs ++ ds) = (pathAndQuery? ('/' :: ds)).map fun (path, query) =>
      { t with path, query } := by
  have hchars : "/" = String.ofList ['/'] := rfl
  by_cases hslash : cs.head? = some '/'
  · obtain ⟨rest, rfl⟩ : ∃ rest, cs = '/' :: rest := List.head?_eq_some_iff.1 hslash
    obtain ⟨⟨path, query⟩, hpq, rfl⟩ := Option.map_eq_some_iff.1 h
    obtain rfl := path_of_unmarked hcs hpq
    have hrest : '/' :: rest = ['/'] := String.ofList_injective (hroot.trans hchars)
    rw [hrest]
    rfl
  cases hscheme : scheme? cs with
  | none => exact absurd hroot (path_ne_of_no_scheme h hslash hscheme)
  | some found =>
    obtain ⟨scheme, rest⟩ := found
    rw [ofChars?_of_scheme? hscheme hslash] at h
    dsimp only at h
    generalize hauthority : rest.takeWhile (fun c => !endsAuthority c) = authority at h
    split at h
    · cases h
    rename_i hfits
    obtain ⟨⟨path, query⟩, hpq, rfl⟩ := Option.map_eq_some_iff.1 h
    have hends : ∀ c ∈ authority, endsAuthority c = false := by
      intro c hc
      rw [← hauthority] at hc
      simpa using List.all_eq_true.1 List.all_takeWhile c hc
    have hne : authority ≠ [] := by
      rintro rfl
      exact hfits rfl
    obtain ⟨tail, rfl⟩ : authority <+: rest := hauthority ▸ List.takeWhile_prefix _
    rw [List.drop_left] at hpq
    have htail : Unmarked tail := by
      obtain ⟨before, -, hwhole⟩ := unmarked_of_scheme? hscheme
      rw [hwhole] at hcs
      exact hcs.of_append.of_append
    obtain rfl := path_of_unmarked htail hpq
    have hempty : tail = [] ∨ tail = ['/'] := by
      dsimp only at hroot
      split at hroot
      · rename_i he
        exact Or.inl (String.ofList_injective he)
      · exact Or.inr (String.ofList_injective (hroot.trans hchars))
    have hnext := scheme?_slashed hscheme hne hends hempty ds
    have hhead : (slashed cs ++ ds).head? ≠ some '/' := by
      obtain ⟨slash, hslashed, -⟩ := slashed_eq_append cs
      cases cs with
      | nil => cases hscheme
      | cons c cs =>
        rw [hslashed]
        exact hslash
    rw [ofChars?_of_scheme? hnext hhead]
    dsimp only
    rw [authority_append hends, List.drop_left, if_neg hfits]
    cases hpq' : pathAndQuery? ('/' :: ds) with
    | none => rfl
    | some p => simp only [Option.map_some, if_neg (path_ne_of_slash hpq')]

end Target

/-! ### Where a request arrives -/

/-- Credentials that lead to the paths of the server. -/
structure Credentials.AtServer (c : Credentials) : Prop where
  unmarked : Unmarked c.endpoint.toList
  root : (Target.ofText? c.endpoint).map (·.path) = some "/"
  tenant : c.tenant = Server.tenant

instance (c : Credentials) : Decidable c.AtServer :=
  decidable_of_iff
    (Unmarked c.endpoint.toList ∧ (Target.ofText? c.endpoint).map (·.path) = some "/" ∧
      c.tenant = Server.tenant)
    ⟨fun ⟨hu, hr, ht⟩ => ⟨hu, hr, ht⟩, fun ⟨hu, hr, ht⟩ => ⟨hu, hr, ht⟩⟩

theorem Target.ofChars?_of_ofText? {s : String} {t : Target} (h : ofText? s = some t) :
    ofChars? s.toList = some t := by
  unfold ofText? at h
  split at h
  · cases h
  · exact h

theorem Draft.query_eq (params : Pairs) :
    Draft.query params = [] ∨ ∃ rest, Draft.query params = '?' :: rest := by
  unfold Draft.query
  split
  · exact Or.inl rfl
  · exact Or.inr ⟨_, rfl⟩

namespace Server

/-- The path of a call is that of its draft, after the tenant, up to where a query or a fragment
begins. -/
theorem exists_path_of_sent {d : Draft} {t : Transfer} {c : Call} (hd : d.credentials.AtServer)
    {before after : List Char} (hbefore : Unmarked before) (hpath : d.path.toList = before ++ after)
    (hurl : t.request.url = d.url) (h : Backend.callOf? t = some c) :
    ∃ kept, kept <+: after ∧ c.path.toList = "/1/tenant".toList ++ (before ++ kept) ∧
      (Unmarked after → kept = after) := by
  obtain ⟨-, -, target, htarget, hcall, -⟩ := callOf?_spec h
  obtain ⟨root, hroot, hslash⟩ := Option.map_eq_some_iff.1 hd.root
  have hwhole : d.url.toList = Target.slashed d.credentials.endpoint.toList
      ++ (("1/tenant".toList ++ before) ++ (after ++ Draft.query d.params)) := by
    rw [Draft.toList_url, Draft.place, hd.tenant, hpath, Target.slashed]
    simp [tenant]
  have hchars := Target.ofChars?_of_ofText? htarget
  rw [hurl, hwhole, Target.ofChars?_slashed_append hd.unmarked
    (Target.ofChars?_of_ofText? hroot) hslash] at hchars
  obtain ⟨⟨path, query⟩, hpq, rfl⟩ := Option.map_eq_some_iff.1 hchars
  have hunmarked : Unmarked ("/1/tenant".toList ++ before) := Unmarked.append (by decide) hbefore
  have hlist : path = String.ofList (("/1/tenant".toList ++ before)
      ++ Target.pathOf (after ++ Draft.query d.params)) := by
    rw [← Target.pathOf_append hunmarked]
    exact Target.path_of_pathAndQuery? hpq
  refine ⟨_, Target.pathOf_isPrefix after (Draft.query_eq d.params), ?_, fun hafter => ?_⟩
  · rw [hcall]
    dsimp only
    rw [hlist, String.toList_ofList, List.append_assoc]
  · rw [Target.pathOf_append hafter, Target.pathOf_query (Draft.query_eq d.params), List.append_nil]

/-- The path of a call is that of its draft, after the tenant. -/
theorem toList_path_of_sent {d : Draft} {t : Transfer} {c : Call} (hd : d.credentials.AtServer)
    (hpath : Unmarked d.path.toList) (hurl : t.request.url = d.url)
    (h : Backend.callOf? t = some c) : c.path.toList = "/1/tenant".toList ++ d.path.toList := by
  obtain ⟨kept, -, hwhole, hkept⟩ :=
    exists_path_of_sent hd (by decide : Unmarked []) (List.nil_append _).symm hurl h
  rw [hwhole, hkept hpath, List.nil_append]

end Server

/-! ### Texts that stay as they are -/

/-- All characters are unreserved, so that percent coding leaves the text as it is. -/
def Unreserved (s : String) : Prop := ∀ c ∈ s.toList, Percent.isUnreserved c.toNat = true

instance (s : String) : Decidable (Unreserved s) :=
  List.decidableBAll _ s.toList

section
variable {s : String}

theorem Unreserved.not_mem (h : Unreserved s) {c : Char}
    (hc : Percent.isUnreserved c.toNat = false) : c ∉ s.toList := by
  intro hm
  rw [h c hm] at hc
  cases hc

theorem Unreserved.unmarked (h : Unreserved s) : Unmarked s.toList :=
  ⟨h.not_mem (by decide), h.not_mem (by decide)⟩

theorem Percent.encodeOctet_of_isUnreserved {c : Char} (h : isUnreserved c.toNat = true) :
    encodeOctet (UInt8.ofNat c.toNat) = [c] := by
  have hn : (UInt8.ofNat c.toNat).toNat = c.toNat :=
    Utf8.toNat_ofNat_octet (Nat.lt_trans (lt_of_isUnreserved h) (by decide))
  rw [encodeOctet, hn, if_pos h, Char.ofNat_toNat]

theorem Unreserved.encode (h : Unreserved s) : Percent.encode s = s.toList := by
  have hascii : ∀ c ∈ s.toList, c.toNat < 128 := fun c hc => Percent.lt_of_isUnreserved (h c hc)
  have hall : ∀ cs : List Char, (∀ c ∈ cs, Percent.isUnreserved c.toNat = true) →
      (cs.map fun c => UInt8.ofNat c.toNat).flatMap Percent.encodeOctet = cs := by
    intro cs hcs
    induction cs with
    | nil => rfl
    | cons c cs ih =>
      rw [List.map_cons, List.flatMap_cons,
        Percent.encodeOctet_of_isUnreserved (hcs c (List.mem_cons_self ..)),
        ih fun d hd => hcs d (List.mem_cons_of_mem _ hd)]
      rfl
  rw [Percent.encode, Percent.encodeOctets, Utf8.ofString, Percent.utf8_encode_ascii hascii]
  exact hall s.toList h

end

namespace Server.Route

theorem decodePart_encode (name s : String) :
    decodePart name (String.ofList (Percent.encode s)) = .ok s := by
  have hoctets : Utf8.ofString (String.ofList (Percent.encode s))
      = Utf8.encode (Percent.encode s) := by
    rw [Utf8.ofString, String.toList_ofList]
  rw [decodePart, hoctets, Percent.decode_encode, Utf8.text?_ofString]

theorem decodePart_of_unreserved (name : String) {s : String} (h : Unreserved s) :
    decodePart name s = .ok s := by
  have hpart := decodePart_encode name s
  rwa [h.encode, String.ofList_toList] at hpart

/-! ### Routes -/

theorem joined_cons (sep : Char) (p : List Char) (ps : List (List Char)) :
    Text.joined sep (p :: ps) = p ++ ps.flatMap (sep :: ·) := by
  induction ps generalizing p with
  | nil => simp [Text.joined]
  | cons q ps ih => rw [Text.joined, ih q, List.flatMap_cons, List.cons_append]

theorem ofPath?_below {path : String} {cs : List Char}
    (h : path.toList = "/1/tenant".toList ++ '/' :: cs) :
    ofPath? path = ofParts? (Text.split '/' cs) := by
  have hwhole : path.toList = [] ++ '/' :: (['1'] ++ '/' :: ("tenant".toList ++ '/' :: cs)) := h
  have hsplit : Text.split '/' path.toList
      = [] :: ['1'] :: "tenant".toList :: Text.split '/' cs := by
    rw [hwhole, Text.split_append (by decide), Text.split_append (by decide),
      Text.split_append (by decide)]
  rw [ofPath?, hsplit]
  exact if_pos (by decide)

/-- The parts of a path after the tenant. -/
theorem ofPath?_of_parts {path : String} {parts : List (List Char)} (hne : parts ≠ [])
    (hparts : ∀ p ∈ parts, '/' ∉ p)
    (h : path.toList = "/1/tenant".toList ++ parts.flatMap ('/' :: ·)) :
    ofPath? path = ofParts? parts := by
  obtain ⟨p, ps, rfl⟩ := List.exists_cons_of_ne_nil hne
  rw [List.flatMap_cons, List.cons_append, ← joined_cons] at h
  rw [ofPath?_below h, Text.split_joined hne hparts]

variable {path b k : String}

theorem ofPath?_bucketObjects (hb : '/' ∉ b.toList) (hne : b ≠ "")
    (h : path.toList = "/1/tenant".toList ++ ["objects".toList, b.toList].flatMap ('/' :: ·)) :
    ofPath? path = some (.bucketObjects b) := by
  have hempty : b.toList.isEmpty = false := by simpa using hne
  rw [ofPath?_of_parts (by simp) (by simp [hb]) h, ofParts?, hempty]
  simp

theorem ofPath?_bucketFiles (hb : '/' ∉ b.toList) (hne : b ≠ "")
    (h : path.toList = "/1/tenant".toList ++ ["files".toList, b.toList].flatMap ('/' :: ·)) :
    ofPath? path = some (.bucketFiles b) := by
  have hempty : b.toList.isEmpty = false := by simpa using hne
  rw [ofPath?_of_parts (by simp) (by simp [hb]) h, ofParts?, hempty]
  simp

theorem ofPath?_object (hb : '/' ∉ b.toList) (hbne : b ≠ "") (hk : '/' ∉ k.toList) (hkne : k ≠ "")
    (h : path.toList
      = "/1/tenant".toList ++ ["objects".toList, b.toList, k.toList].flatMap ('/' :: ·)) :
    ofPath? path = some (.object b k) := by
  have hempty : b.toList.isEmpty = false := by simpa using hbne
  have hempty' : k.toList.isEmpty = false := by simpa using hkne
  rw [ofPath?_of_parts (by simp) (by simp [hb, hk]) h]
  simp [ofParts?, Text.joined, hempty, hempty']

theorem ofPath?_file (hb : '/' ∉ b.toList) (hbne : b ≠ "") {name : List Char} (hk : '/' ∉ name)
    (hkne : name ≠ [])
    (h : path.toList
      = "/1/tenant".toList ++ ["files".toList, b.toList, name].flatMap ('/' :: ·)) :
    ofPath? path = some (.file b (String.ofList name)) := by
  have hempty : b.toList.isEmpty = false := by simpa using hbne
  have hempty' : name.isEmpty = false := by simpa using hkne
  rw [ofPath?_of_parts (by simp) (by simp [hb, hk]) h]
  simp [ofParts?, Text.joined, hempty, hempty']

/-! ### Routes of paths in which a part may hold separators -/

theorem ofParts?_of_long {kind a b c : List Char} {rest : List (List Char)}
    (hkind : kind ≠ "api".toList) : ofParts? (kind :: a :: b :: c :: rest) = none := by
  unfold ofParts?
  dsimp only
  split
  · rfl
  · exact if_pos (by simp)

/-- A path of an object leads nowhere if the bucket is more than one part. -/
theorem eq_of_ofPath?_object (hk : '/' ∉ k.toList) (hkne : k ≠ "")
    (h : path.toList
      = "/1/tenant".toList ++ ["objects".toList, b.toList, k.toList].flatMap ('/' :: ·))
    {raw : Route} (hr : ofPath? path = some raw) : raw = .object b k := by
  have hbelow : path.toList
      = "/1/tenant".toList ++ '/' :: ("objects".toList ++ '/' :: (b.toList ++ '/' :: k.toList)) := by
    rw [h]
    simp
  have hparts := ofPath?_below hbelow
  rw [Text.split_append (by decide)] at hparts
  by_cases hb : '/' ∈ b.toList
  · obtain ⟨l, r, hcut, hl⟩ := Text.exists_of_mem hb
    rw [hcut, List.append_assoc, List.cons_append, Text.split_append hl] at hparts
    obtain ⟨p, q, rest, hsplit⟩ := Text.split_of_mem (List.mem_append_right r (List.mem_cons_self ..))
    rw [hsplit, ofParts?_of_long (by decide), hr] at hparts
    cases hparts
  · by_cases hbne : b = ""
    · subst hbne
      rw [ofPath?_below hbelow] at hr
      rw [Text.split_append (by decide), Text.split_append (by decide), Text.split_of_not_mem hk] at hr
      cases hr
    · rw [ofPath?_object hb hbne hk hkne h] at hr
      exact (Option.some.inj hr).symm

theorem eq_of_ofPath?_bucketObjects {part : List Char} (hpart : '/' ∉ part)
    (h : path.toList = "/1/tenant".toList ++ ["objects".toList, part].flatMap ('/' :: ·))
    {raw : Route} (hr : ofPath? path = some raw) : raw = .bucketObjects (.ofList part) := by
  by_cases hne : part = []
  · subst hne
    rw [ofPath?_of_parts (by simp) (by simp) h] at hr
    cases hr
  · have hfull : String.ofList part ≠ "" := by simpa using hne
    rw [← @String.toList_ofList part] at hpart h
    rw [ofPath?_bucketObjects hpart hfull h] at hr
    exact (Option.some.inj hr).symm

end Server.Route
end AppBackend
