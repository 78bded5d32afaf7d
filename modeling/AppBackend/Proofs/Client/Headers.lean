import AppBackend.Client.Draft
import Mathlib.Data.List.Infix

/-!
# Headers of a request

The headers that the caller gives, less incomplete ones and user agents that a later one overrides,
then who is asking, the session and, if need be, a user agent. `told` says which these are, from the
headers given and the steps taken. Main statement: `headers_told`, a request has a line for each of
them in order, and the lines read back as they are.
-/

namespace AppBackend
namespace Draft

/-! ### Which headers are kept -/

/-- The pair in front, unless it lacks a half or is a user agent and one with a value follows. -/
def kept? : Pairs → Option (String × String)
  | [] => none
  | p :: rest =>
    if p.1 ≠ "" ∧ p.2 ≠ "" ∧ ¬ (isAgent p = true ∧ ∃ q ∈ rest, isAgent q = true ∧ q.2 ≠ "")
    then some p else none

def kept (ps : Pairs) : Pairs := ps.tails.filterMap kept?

variable {p : String × String} {ps : Pairs}

theorem isFull_of_isAgent (h : isAgent p = true) (hvalue : p.2 ≠ "") : isFull p = true := by
  refine isFull_iff.2 ⟨fun hname => ?_, hvalue⟩
  rw [isAgent, hname] at h
  exact absurd h (by decide)

theorem namesAgent_iff : namesAgent ps = true ↔ ∃ p ∈ ps, isAgent p = true ∧ p.2 ≠ "" := by
  simp only [namesAgent, List.any_eq_true, Bool.and_eq_true, bne_iff_ne]

theorem kept_nil : kept [] = [] := by simp [kept, kept?]

theorem kept_cons_of_kept (hfull : isFull p = true)
    (h : ¬ (isAgent p = true ∧ namesAgent ps = true)) : kept (p :: ps) = p :: kept ps := by
  obtain ⟨hname, hvalue⟩ := isFull_iff.1 hfull
  rw [namesAgent_iff] at h
  have hsome : kept? (p :: ps) = some p := if_pos ⟨hname, hvalue, h⟩
  rw [kept, List.tails_cons, List.filterMap_cons_some hsome, kept]

theorem kept_cons_of_left_out
    (h : isFull p = true → isAgent p = true ∧ namesAgent ps = true) : kept (p :: ps) = kept ps := by
  rw [namesAgent_iff] at h
  have hnone : kept? (p :: ps) = none := if_neg fun ⟨hname, hvalue, hover⟩ =>
    hover (h (isFull_iff.2 ⟨hname, hvalue⟩))
  rw [kept, List.tails_cons, List.filterMap_cons_none hnone, kept]

theorem filter_lastAgent (ps : Pairs) : (lastAgent ps).filter isFull = kept ps := by
  induction ps with
  | nil => exact kept_nil.symm
  | cons p ps ih =>
    by_cases hover : (isAgent p && namesAgent ps) = true
    · rw [lastAgent, if_pos hover, kept_cons_of_left_out fun _ => Bool.and_eq_true_iff.1 hover, ih]
    · rw [lastAgent, if_neg hover]
      rw [Bool.and_eq_true] at hover
      by_cases hfull : isFull p = true
      · rw [List.filter_cons_of_pos hfull, kept_cons_of_kept hfull hover, ih]
      · rw [List.filter_cons_of_neg hfull, kept_cons_of_left_out fun h => absurd h hfull, ih]

/-! ### The user agent -/

def isNamed (p : String × String) : Bool := isAgent p && p.2 != ""

theorem filter_isNamed_eq_nil (h : ¬ namesAgent ps = true) : ps.filter isNamed = [] :=
  List.filter_eq_nil_iff.2 fun p hp hnamed => h (List.any_eq_true.2 ⟨p, hp, hnamed⟩)

/-- Of the user agents given, the last one with a value is kept, and no other. -/
theorem filter_isAgent_kept (ps : Pairs) :
    (kept ps).filter isAgent = (ps.filter isNamed).getLast?.toList := by
  induction ps with
  | nil => rw [kept_nil]; rfl
  | cons p ps ih =>
    by_cases hnamed : isNamed p = true
    · obtain ⟨hagent, hvalue⟩ := Bool.and_eq_true_iff.1 hnamed
      rw [List.filter_cons_of_pos hnamed, List.getLast?_cons]
      by_cases hlater : namesAgent ps = true
      -- the last one is among those that follow
      · have hne : ps.filter isNamed ≠ [] := by
          obtain ⟨q, hq, hqnamed⟩ := List.any_eq_true.1 hlater
          exact List.ne_nil_of_mem (List.mem_filter.2 ⟨hq, hqnamed⟩)
        rw [kept_cons_of_left_out fun _ => ⟨hagent, hlater⟩, ih, List.getLast?_eq_some_getLast hne]
        rfl
      · have hfull : isFull p = true := isFull_of_isAgent hagent (bne_iff_ne.1 hvalue)
        rw [kept_cons_of_kept hfull fun h => hlater h.2, List.filter_cons_of_pos hagent, ih,
          filter_isNamed_eq_nil hlater]
        rfl
    · rw [List.filter_cons_of_neg hnamed, ← ih]
      by_cases hfull : isFull p = true
      · have hother : ¬ isAgent p = true := fun hagent =>
          hnamed (Bool.and_eq_true_iff.2 ⟨hagent, bne_iff_ne.2 (isFull_iff.1 hfull).2⟩)
        rw [kept_cons_of_kept hfull fun h => hother h.1, List.filter_cons_of_neg hother]
      · rw [kept_cons_of_left_out fun h => absurd h hfull]

/-! ### All headers -/

/-- The headers of a request, by what is known of the caller, the steps taken and the headers that
they leave. -/
def told (c : Credentials) (token : String) (steps : List Step) (given : Pairs) : Pairs :=
  kept given
    ++ [(HeaderName.appId, c.appId), (HeaderName.appKey, c.appKey)]
    ++ (if token ≠ "" ∧ .withoutSession ∉ steps then [(HeaderName.sessionToken, token)] else [])
    ++ if ∃ p ∈ given, isAgent p = true ∧ p.2 ≠ "" then []
      else [(HeaderName.userAgent, defaultUserAgent)]

/-- The user agent that a request names: the last one given with a value, or the usual one. -/
def agentOf (given : Pairs) : String × String :=
  (given.filter isNamed).getLast?.getD (HeaderName.userAgent, defaultUserAgent)

theorem withSession_foldl_change (d : Draft) (steps : List Step) :
    (steps.foldl change d).withSession = true ↔ d.withSession = true ∧ .withoutSession ∉ steps := by
  induction steps generalizing d with
  | nil => simp
  | cons s steps ih =>
    rw [List.foldl_cons, ih, List.mem_cons, not_or, and_assoc.symm]
    refine and_congr_left fun _ => ?_
    cases s <;> simp only [change] <;> (try split) <;> simp

/-- Who is asking is named in full by credentials that lack nothing. -/
theorem filter_asker {c : Credentials} (hc : c.missing? = none) :
    [(HeaderName.appId, c.appId), (HeaderName.appKey, c.appKey)].filter isFull
      = [(HeaderName.appId, c.appId), (HeaderName.appKey, c.appKey)] := by
  obtain ⟨hid, hkey⟩ := Credentials.full_of_complete hc
  have hfullId : isFull (HeaderName.appId, c.appId) = true :=
    isFull_iff.2 ⟨(by decide : HeaderName.appId ≠ ""), hid⟩
  have hfullKey : isFull (HeaderName.appKey, c.appKey) = true :=
    isFull_iff.2 ⟨(by decide : HeaderName.appKey ≠ ""), hkey⟩
  rw [List.filter_cons_of_pos hfullId, List.filter_cons_of_pos hfullKey]
  rfl

theorem filter_session (token : String) (withSession : Bool) :
    (if withSession then [(HeaderName.sessionToken, token)] else []).filter isFull
      = if token ≠ "" ∧ withSession = true then [(HeaderName.sessionToken, token)] else [] := by
  have hfull : isFull (HeaderName.sessionToken, token) = true ↔ token ≠ "" :=
    isFull_iff.trans (and_iff_right (by decide : HeaderName.sessionToken ≠ ""))
  cases withSession with
  | false => simp
  | true => simp [hfull, List.filter_cons]

theorem headerPairs_applyAll {d : Draft} (hd : d.missing? = none) (hsession : d.withSession = true)
    (steps : List Step) : (d.applyAll steps).headerPairs
      = told d.credentials d.sessionToken steps (d.applyAll steps).headers := by
  have hwith : (d.applyAll steps).withSession = true ↔ .withoutSession ∉ steps := by
    rw [applyAll_of_complete hd, withSession_foldl_change]
    exact and_iff_right hsession
  have hagent : (if namesAgent (d.applyAll steps).headers then []
      else [(HeaderName.userAgent, defaultUserAgent)]).filter isFull
      = if ∃ p ∈ (d.applyAll steps).headers, isAgent p = true ∧ p.2 ≠ "" then []
        else [(HeaderName.userAgent, defaultUserAgent)] := by
    simp only [namesAgent_iff]
    split
    · rfl
    · rfl
  rw [headerPairs, credentials_applyAll, sessionToken_applyAll, List.filter_append,
    List.filter_append, List.filter_append, filter_lastAgent, filter_asker hd, filter_session,
    hagent, told]
  simp only [hwith]

/-! ### The user agent of a request -/

theorem agentOf_of_named (h : ∃ p ∈ ps, isAgent p = true ∧ p.2 ≠ "") :
    (ps.filter isNamed).getLast?.toList = [agentOf ps] := by
  obtain ⟨p, hp, hnamed⟩ := List.any_eq_true.1 (namesAgent_iff.2 h)
  have hne : ps.filter isNamed ≠ [] := List.ne_nil_of_mem (List.mem_filter.2 ⟨hp, hnamed⟩)
  rw [agentOf, List.getLast?_eq_some_getLast hne]
  rfl

theorem not_isAgent {name : String} (h : Text.sameName name HeaderName.userAgent = false)
    (value : String) : ¬ isAgent (name, value) = true := by
  rw [isAgent, h]
  exact Bool.false_ne_true

/-- A request names one user agent. -/
theorem filter_isAgent_told (c : Credentials) (token : String) (steps : List Step) (given : Pairs) :
    (told c token steps given).filter isAgent = [agentOf given] := by
  have hasker : [(HeaderName.appId, c.appId), (HeaderName.appKey, c.appKey)].filter isAgent
      = [] := by
    rw [List.filter_cons_of_neg (not_isAgent (by decide) _),
      List.filter_cons_of_neg (not_isAgent (by decide) _), List.filter_nil]
  have hsession : (if token ≠ "" ∧ .withoutSession ∉ steps then
      [(HeaderName.sessionToken, token)] else []).filter isAgent = [] := by
    split
    · rw [List.filter_cons_of_neg (not_isAgent (by decide) _), List.filter_nil]
    · rfl
  rw [told, List.filter_append, List.filter_append, List.filter_append, filter_isAgent_kept, hasker,
    hsession, List.append_nil, List.append_nil]
  split
  · rename_i h
    rw [agentOf_of_named h]
    rfl
  · rename_i h
    rw [agentOf, filter_isNamed_eq_nil (by rwa [namesAgent_iff])]
    rfl

/-! ### Lines -/

def beginsBlank (s : String) : Bool := s.toList.head?.any Text.isBlank

theorem isBlank_of_not_beginsBlank {s : String} (h : beginsBlank s = false) :
    ∀ c, s.toList.head? = some c → Text.isBlank c = false := by
  intro c hc
  rw [beginsBlank, hc] at h
  exact h

theorem mem_of_mem_kept (h : p ∈ kept ps) : p ∈ ps := by
  obtain ⟨tail, htail, hp⟩ := List.mem_filterMap.1 h
  have hsuffix : tail <:+ ps := (List.mem_tails _ _).1 htail
  cases tail with
  | nil => cases hp
  | cons q rest =>
    rw [kept?] at hp
    split at hp
    · obtain rfl := Option.some.inj hp
      exact hsuffix.subset (List.mem_cons_self ..)
    · cases hp

/-- The names and values of a request that its caller does not give as headers. -/
def unasked (c : Credentials) (token : String) : Pairs :=
  [(HeaderName.appId, c.appId), (HeaderName.appKey, c.appKey), (HeaderName.sessionToken, token),
    (HeaderName.userAgent, defaultUserAgent)]

/-- The headers of a request are those of the caller that are kept, then some others. -/
theorem exists_told (c : Credentials) (token : String) (steps : List Step) (given : Pairs) :
    ∃ others, told c token steps given = kept given ++ others ∧
      ∀ p ∈ others, p ∈ unasked c token := by
  refine ⟨_, by rw [told, List.append_assoc, List.append_assoc], fun p hp => ?_⟩
  rw [List.mem_append, List.mem_append] at hp
  simp only [unasked, List.mem_cons, List.not_mem_nil, or_false]
  rcases hp with hp | hp | hp
  · simp only [List.mem_cons, List.not_mem_nil, or_false] at hp
    tauto
  · split at hp
    · rw [List.mem_singleton] at hp
      tauto
    · cases hp
  · split at hp
    · cases hp
    · rw [List.mem_singleton] at hp
      tauto

theorem mem_told {c : Credentials} {token : String} {steps : List Step} {given : Pairs}
    {p : String × String} (hp : p ∈ told c token steps given) :
    p ∈ given ∨ p ∈ unasked c token := by
  obtain ⟨others, htold, hothers⟩ := exists_told c token steps given
  rw [htold, List.mem_append] at hp
  exact hp.imp mem_of_mem_kept (hothers p)

theorem colonless_of_mem_told {c : Credentials} {token : String} {steps : List Step}
    {given : Pairs} (hgiven : ∀ p ∈ given, ':' ∉ p.1.toList) {p : String × String}
    (hp : p ∈ told c token steps given) : ':' ∉ p.1.toList := by
  rcases mem_told hp with hp | hp
  · exact hgiven p hp
  · simp only [unasked, List.mem_cons, List.not_mem_nil, or_false] at hp
    rcases hp with rfl | rfl | rfl | rfl
    · exact (by decide : ':' ∉ HeaderName.appId.toList)
    · exact (by decide : ':' ∉ HeaderName.appKey.toList)
    · exact (by decide : ':' ∉ HeaderName.sessionToken.toList)
    · exact (by decide : ':' ∉ HeaderName.userAgent.toList)

/-- The names have no colon and the values do not begin with a blank, if this holds of what the
caller gives. -/
theorem plain_of_mem_told {c : Credentials} {token : String} {steps : List Step} {given : Pairs}
    (hgiven : ∀ p ∈ given, ':' ∉ p.1.toList ∧ beginsBlank p.2 = false)
    (hid : beginsBlank c.appId = false) (hkey : beginsBlank c.appKey = false)
    (htoken : beginsBlank token = false) {p : String × String}
    (hp : p ∈ told c token steps given) : ':' ∉ p.1.toList ∧ beginsBlank p.2 = false := by
  refine ⟨colonless_of_mem_told (fun p hp => (hgiven p hp).1) hp, ?_⟩
  rcases mem_told hp with hp | hp
  · exact (hgiven p hp).2
  · simp only [unasked, List.mem_cons, List.not_mem_nil, or_false] at hp
    rcases hp with rfl | rfl | rfl | rfl
    · exact hid
    · exact hkey
    · exact htoken
    · exact (by decide : beginsBlank defaultUserAgent = false)

/-! ### Headers of one kind -/

section
variable {q : String × String → Bool}

theorem filter_kept (hq : ∀ p, q p = true → isAgent p = false) (ps : Pairs) :
    (kept ps).filter q = (ps.filter isFull).filter q := by
  induction ps with
  | nil => rw [kept_nil]; rfl
  | cons p ps ih =>
    by_cases hfull : isFull p = true
    · rw [List.filter_cons_of_pos hfull]
      by_cases hp : q p = true
      · have hother : ¬ isAgent p = true := by
          rw [hq p hp]
          exact Bool.false_ne_true
        rw [kept_cons_of_kept hfull fun h => hother h.1, List.filter_cons_of_pos hp,
          List.filter_cons_of_pos hp, ih]
      · by_cases hover : isAgent p = true ∧ namesAgent ps = true
        · rw [kept_cons_of_left_out fun _ => hover, List.filter_cons_of_neg hp, ih]
        · rw [kept_cons_of_kept hfull hover, List.filter_cons_of_neg hp,
            List.filter_cons_of_neg hp, ih]
    · rw [kept_cons_of_left_out fun h => absurd h hfull, List.filter_cons_of_neg hfull, ih]

/-- Headers that only the caller gives. -/
theorem filter_told {c : Credentials} {token : String}
    (hq : ∀ p, q p = true → isAgent p = false) (hno : ∀ p ∈ unasked c token, q p = false)
    (steps : List Step) (given : Pairs) :
    (told c token steps given).filter q = (given.filter isFull).filter q := by
  obtain ⟨others, htold, hothers⟩ := exists_told c token steps given
  have hnone : others.filter q = [] := by
    refine List.filter_eq_nil_iff.2 fun p hp => ?_
    rw [hno p (hothers p hp)]
    exact Bool.false_ne_true
  rw [htold, List.filter_append, filter_kept hq, hnone, List.append_nil]

end

/-- Whatever steps a draft takes that lacks nothing: its request has a line for each of these
headers and no other. If no name that the caller gives has a colon, and no value nor anything else
in the lines begins with a blank, the lines read back as these headers; one of them names the user
agent, the last that the caller gives with a value, or the usual one. -/
theorem headers_told {c : Credentials} (hc : c.missing? = none) (token : String)
    (options : TransportOptions) (steps : List Step) :
    let given := (applyAll { credentials := c, sessionToken := token, options } steps).headers
    ∃ r, (applyAll { credentials := c, sessionToken := token, options } steps).request = .ok r ∧
      r.headers = (told c token steps given).map (fun p => p.1 ++ ": " ++ p.2) ∧
      ((∀ p ∈ given, ':' ∉ p.1.toList ∧ beginsBlank p.2 = false) →
        beginsBlank c.appId = false → beginsBlank c.appKey = false → beginsBlank token = false →
        r.headerPairs = told c token steps given ∧
          r.headerPairs.filter isAgent = [agentOf given]) := by
  intro given
  let d : Draft := { credentials := c, sessionToken := token, options }
  have hrequest : (d.applyAll steps).request = .ok (d.applyAll steps).build := by
    rw [request, missing?_applyAll, show d.missing? = none from hc]
  have hlines : (d.applyAll steps).build.headers
      = (told c token steps given).map fun p => Request.headerLine p.1 p.2 := by
    rw [build, headerPairs_applyAll (d := d) hc rfl]
  refine ⟨(d.applyAll steps).build, hrequest, hlines, ?_⟩
  intro hgiven hid hkey htoken
  have hpairs : (d.applyAll steps).build.headerPairs = told c token steps given := by
    rw [Request.headerPairs, hlines]
    refine Request.filterMap_headerPair? fun p hp => ?_
    obtain ⟨hname, hvalue⟩ := plain_of_mem_told hgiven hid hkey htoken hp
    exact ⟨hname, isBlank_of_not_beginsBlank hvalue⟩
  exact ⟨hpairs, hpairs ▸ filter_isAgent_told c token steps given⟩

/-- Three user agents in other letters, the last without a value; a pair without a name; and a name
that comes twice. -/
theorem headers_told_of_agents :
    let c : Credentials := ⟨"http://host", "t", "id", "key", ""⟩
    let steps : List Step :=
      [.headers [("user-agent", "first"), ("X-A", "1"), ("USER-AGENT", "second: b"),
        ("User-Agent", ""), ("", "x")], .appendHeader "X-A" "2"]
    c.missing? = none ∧
    ∃ r, (applyAll { credentials := c, sessionToken := "token", options := {} } steps).request
        = .ok r ∧
      r.headerPairs = [("X-A", "1"), ("USER-AGENT", "second: b"), ("X-A", "2"),
        ("X-Application-Id", "id"), ("X-Application-Key", "key"), ("X-Session-Token", "token")] ∧
      r.headerPairs.filter isAgent = [("USER-AGENT", "second: b")] := by
  intro c steps
  have hc : c.missing? = none := by decide
  obtain ⟨r, hr, -, hread⟩ := headers_told hc "token" {} steps
  obtain ⟨hpairs, hagent⟩ := hread (by decide) (by decide) (by decide) (by decide)
  exact ⟨hc, r, hr, hpairs.trans (by decide), hagent.trans (by decide)⟩

end Draft
end AppBackend
