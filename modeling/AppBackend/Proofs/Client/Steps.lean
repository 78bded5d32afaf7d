import AppBackend.Proofs.Client.Headers

/-!
# Steps and their parts

A step of a draft is about one part of the request, and leaves the other parts alone. So only the
order of steps within each part counts. A step that sets many pairs at once does what steps for the
single pairs do, though it keeps incomplete pairs that these refuse: no request shows them. Main
statement: `steps_act_by_part`.
-/

namespace AppBackend
namespace Draft

variable {d e : Draft} {s : Step}

/-! ### Parts -/

/-- What a step is about. -/
inductive Part where
  | target
  | params
  | headers
  | body
  | session
deriving DecidableEq

def Step.part : Step → Part
  | .target _ _ | .appendPath _ => .target
  | .params _ | .appendParam _ _ => .params
  | .headers _ | .appendHeader _ _ => .headers
  | .body _ => .body
  | .withoutSession => .session

def Step.isOf (k : Part) (s : Step) : Bool := s.part == k

def Part.Value : Part → Type
  | target => Method × String
  | params | headers => Pairs
  | body => Bytes
  | session => Bool

def value (d : Draft) : (k : Part) → k.Value
  | .target => (d.method, d.path)
  | .params => d.params
  | .headers => d.headers
  | .body => d.body
  | .session => d.withSession

section Value

variable {k : Part}

/-- What a step makes of its part depends on that part alone. -/
theorem value_change (h : d.value k = e.value k) (s : Step) :
    (d.change s).value k = (e.change s).value k := by
  cases s with
  | target method path =>
    cases k with
    | target => rfl
    | _ => exact h
  | appendPath path =>
    cases k with
    | target => exact congrArg (fun v : Method × String => (v.1, v.2 ++ path)) h
    | _ => exact h
  | params pairs =>
    cases k with
    | params => rfl
    | _ => exact h
  | appendParam key value =>
    rw [change_appendParam, change_appendParam]
    cases k with
    | params => exact congrArg (fun ps : Pairs => ps ++ _) h
    | _ => exact h
  | headers pairs =>
    cases k with
    | headers => rfl
    | _ => exact h
  | appendHeader name value =>
    rw [change_appendHeader, change_appendHeader]
    cases k with
    | headers => exact congrArg (fun ps : Pairs => ps ++ _) h
    | _ => exact h
  | body bytes =>
    cases k with
    | body => rfl
    | _ => exact h
  | withoutSession =>
    cases k with
    | session => rfl
    | _ => exact h

/-- A step leaves the parts alone that it is not about. -/
theorem value_change_of_ne (hs : s.part ≠ k) (d : Draft) : (d.change s).value k = d.value k := by
  cases s with
  | appendParam key value =>
    rw [change_appendParam]
    cases k with
    | params => exact absurd rfl hs
    | _ => rfl
  | appendHeader name value =>
    rw [change_appendHeader]
    cases k with
    | headers => exact absurd rfl hs
    | _ => rfl
  | _ =>
    cases k <;> first
      | rfl
      | exact absurd rfl hs

/-- Only the steps about a part count for it. -/
theorem value_foldl_filter (h : d.value k = e.value k) (ss : List Step) :
    (ss.foldl change d).value k = ((ss.filter (Step.isOf k)).foldl change e).value k := by
  induction ss generalizing d e with
  | nil => exact h
  | cons s ss ih =>
    by_cases hs : s.part = k
    · have hpos : s.isOf k = true := beq_iff_eq.2 hs
      rw [List.filter_cons_of_pos hpos]
      exact ih (value_change h s)
    · have hneg : ¬ s.isOf k = true := mt beq_iff_eq.1 hs
      rw [List.filter_cons_of_neg hneg]
      exact ih ((value_change_of_ne hs d).trans h)

theorem value_foldl_of_filter_eq {ss ts : List Step}
    (h : ss.filter (Step.isOf k) = ts.filter (Step.isOf k)) (d : Draft) :
    (ss.foldl change d).value k = (ts.foldl change d).value k := by
  rw [value_foldl_filter (e := d) rfl ss, h, value_foldl_filter (e := d) rfl ts]

end Value

/-- A draft is its caller and its parts. -/
theorem eq_of_value (hcredentials : d.credentials = e.credentials)
    (htoken : d.sessionToken = e.sessionToken) (hoptions : d.options = e.options)
    (h : ∀ k, d.value k = e.value k) : d = e := by
  obtain ⟨hmethod, hpath⟩ := Prod.mk.inj (h .target)
  have hparams : d.params = e.params := h .params
  have hheaders : d.headers = e.headers := h .headers
  have hbody : d.body = e.body := h .body
  have hsession : d.withSession = e.withSession := h .session
  cases d
  cases e
  simp only at hcredentials htoken hoptions hmethod hpath hparams hheaders hbody hsession
  simp only [hcredentials, htoken, hoptions, hmethod, hpath, hparams, hheaders, hbody, hsession]

/-! ### In bulk or one by one -/

/-- A step in bulk, and steps for the single pieces. -/
inductive OneByOne : List Step → List Step → Prop where
  | target (m : Method) (path more : String) :
    OneByOne [.target m (path ++ more)] [.target m path, .appendPath more]
  | params (ps : Pairs) :
    OneByOne [.params ps] (.params [] :: ps.map fun p => .appendParam p.1 p.2)
  | headers (ps : Pairs) :
    OneByOne [.headers ps] (.headers [] :: ps.map fun p => .appendHeader p.1 p.2)

/-- Drafts that differ in incomplete pairs at most. -/
structure Alike (d e : Draft) : Prop where
  rest : { d with params := [], headers := [] } = { e with params := [], headers := [] }
  params : d.params.filter isFull = e.params.filter isFull
  headers : d.headers.filter isFull = e.headers.filter isFull

namespace Alike

theorem refl (d : Draft) : Alike d d := ⟨rfl, rfl, rfl⟩

theorem step (h : Alike d e) (s : Step) : Alike (d.change s) (e.change s) := by
  cases s with
  | target method path =>
    exact ⟨congrArg (fun f : Draft => { f with method, path }) h.rest, h.params, h.headers⟩
  | appendPath path =>
    exact ⟨congrArg (fun f : Draft => { f with path := f.path ++ path }) h.rest, h.params,
      h.headers⟩
  | params pairs => exact ⟨h.rest, rfl, h.headers⟩
  | appendParam key value =>
    rw [change_appendParam, change_appendParam]
    refine ⟨h.rest, ?_, h.headers⟩
    rw [List.filter_append, List.filter_append, h.params]
  | headers pairs => exact ⟨h.rest, h.params, rfl⟩
  | appendHeader name value =>
    rw [change_appendHeader, change_appendHeader]
    refine ⟨h.rest, h.params, ?_⟩
    rw [List.filter_append, List.filter_append, h.headers]
  | body bytes =>
    exact ⟨congrArg (fun f : Draft => { f with body := bytes }) h.rest, h.params, h.headers⟩
  | withoutSession =>
    exact ⟨congrArg (fun f : Draft => { f with withSession := false }) h.rest, h.params,
      h.headers⟩

theorem foldl (h : Alike d e) (ss : List Step) : Alike (ss.foldl change d) (ss.foldl change e) := by
  induction ss generalizing d e with
  | nil => exact h
  | cons s ss ih => exact ih (h.step s)

end Alike

theorem namesAgent_filter (ps : Pairs) : namesAgent (ps.filter isFull) = namesAgent ps := by
  rw [Bool.eq_iff_iff, namesAgent_iff, namesAgent_iff]
  constructor
  · rintro ⟨p, hp, hagent, hvalue⟩
    exact ⟨p, (List.mem_filter.1 hp).1, hagent, hvalue⟩
  · rintro ⟨p, hp, hagent, hvalue⟩
    exact ⟨p, List.mem_filter.2 ⟨hp, isFull_of_isAgent hagent hvalue⟩, hagent, hvalue⟩

theorem lastAgent_filter (ps : Pairs) :
    (lastAgent ps).filter isFull = lastAgent (ps.filter isFull) := by
  induction ps with
  | nil => rfl
  | cons p ps ih =>
    by_cases hfull : isFull p = true
    · rw [List.filter_cons_of_pos hfull, lastAgent, lastAgent, namesAgent_filter, ← ih]
      split
      · rfl
      · rw [List.filter_cons_of_pos hfull]
    · rw [List.filter_cons_of_neg hfull, lastAgent, ← ih]
      split
      · rfl
      · rw [List.filter_cons_of_neg hfull]

/-- Incomplete pairs show in no request. -/
theorem Alike.build (h : Alike d e) : d.build = e.build := by
  have hquery : query d.params = query e.params := by rw [query, h.params, query]
  have hlast : (lastAgent d.headers).filter isFull = (lastAgent e.headers).filter isFull := by
    rw [lastAgent_filter, h.headers, lastAgent_filter]
  have hnames : namesAgent d.headers = namesAgent e.headers := by
    rw [← namesAgent_filter, h.headers, namesAgent_filter]
  have hrest := h.rest
  cases d
  cases e
  simp only [mk.injEq, true_and] at hrest hquery hlast hnames
  obtain ⟨rfl, rfl, rfl, rfl, rfl, rfl, rfl⟩ := hrest
  simp only [Draft.build, url, hquery, headerPairs, hnames, List.filter_append, hlast]

theorem foldl_appendParam (d : Draft) (ps : Pairs) :
    (ps.map fun p => Step.appendParam p.1 p.2).foldl change d
      = { d with params := d.params ++ ps.filter isFull } := by
  induction ps generalizing d with
  | nil => simp
  | cons p ps ih =>
    rw [List.map_cons, List.foldl_cons, change_appendParam, ih, List.append_assoc,
      ← List.filter_append]
    rfl

theorem foldl_appendHeader (d : Draft) (ps : Pairs) :
    (ps.map fun p => Step.appendHeader p.1 p.2).foldl change d
      = { d with headers := d.headers ++ ps.filter isFull } := by
  induction ps generalizing d with
  | nil => simp
  | cons p ps ih =>
    rw [List.map_cons, List.foldl_cons, change_appendHeader, ih, List.append_assoc,
      ← List.filter_append]
    rfl

theorem OneByOne.alike {bulk single : List Step} (h : OneByOne bulk single) (d : Draft) :
    Alike (bulk.foldl change d) (single.foldl change d) := by
  cases h with
  | target m path more => exact .refl _
  | params ps =>
    rw [List.foldl_cons (l := ps.map _), foldl_appendParam]
    refine ⟨rfl, ?_, rfl⟩
    simp [change, List.filter_filter]
  | headers ps =>
    rw [List.foldl_cons (l := ps.map _), foldl_appendHeader]
    refine ⟨rfl, rfl, ?_⟩
    simp [change, List.filter_filter]

/-! ### Lists of steps -/

theorem applyAll_of_parts (hd : d.missing? = none) {ss ts : List Step}
    (h : ∀ k, ss.filter (Step.isOf k) = ts.filter (Step.isOf k)) :
    d.applyAll ss = d.applyAll ts := by
  refine eq_of_value ?_ ?_ ?_ fun k => ?_
  · rw [credentials_applyAll, credentials_applyAll]
  · rw [sessionToken_applyAll, sessionToken_applyAll]
  · rw [options_applyAll, options_applyAll]
  · rw [applyAll_of_complete hd, applyAll_of_complete hd]
    exact value_foldl_of_filter_eq (h k) d

theorem build_of_oneByOne {bulk single : List Step} (h : OneByOne bulk single) (d : Draft)
    (before after : List Step) : (d.applyAll (before ++ bulk ++ after)).build
      = (d.applyAll (before ++ single ++ after)).build := by
  cases hd : d.missing? with
  | some f =>
    have hsome : d.missing?.isSome = true := by rw [hd]; rfl
    rw [applyAll_of_missing hsome, applyAll_of_missing hsome]
  | none =>
    rw [applyAll_of_complete hd, applyAll_of_complete hd]
    simp only [List.foldl_append]
    exact ((h.alike _).foldl after).build

/-- A draft that lacks something stays as it is whatever steps it takes. For one that lacks nothing,
two lists of steps that agree on each part make the same request, however the parts are mixed. And
for any draft, to set pairs in bulk or one by one, and a path at once or in pieces, makes the same
request, whatever steps come before and after. -/
theorem steps_act_by_part (d : Draft) :
    (∀ f, d.missing? = some f → ∀ ss, (d.applyAll ss).missing? = some f ∧
      (d.applyAll ss).request = .error f ∧ (d.applyAll ss).build = d.build) ∧
    (d.missing? = none → ∀ ss ts : List Step,
      (∀ k, ss.filter (Step.isOf k) = ts.filter (Step.isOf k)) →
      ∃ r, (d.applyAll ss).request = .ok r ∧ (d.applyAll ts).request = .ok r) ∧
    (∀ bulk single, OneByOne bulk single → ∀ before after : List Step,
      (d.applyAll (before ++ bulk ++ after)).build
          = (d.applyAll (before ++ single ++ after)).build ∧
        (d.applyAll (before ++ bulk ++ after)).request
          = (d.applyAll (before ++ single ++ after)).request) := by
  refine ⟨fun f hf ss => ?_, fun hd ss ts h => ?_, fun bulk single h before after => ?_⟩
  · have hsome : d.missing?.isSome = true := by rw [hf]; rfl
    rw [applyAll_of_missing hsome]
    exact ⟨hf, by rw [request, hf], rfl⟩
  · have hok (us : List Step) : (d.applyAll us).request = .ok (d.applyAll us).build := by
      rw [request, missing?_applyAll, hd]
    exact ⟨_, hok ss, applyAll_of_parts hd h ▸ hok ts⟩
  · have hbuild := build_of_oneByOne h d before after
    refine ⟨hbuild, ?_⟩
    rw [request, request, missing?_applyAll, missing?_applyAll, hbuild]

/-- Two orders of steps that agree on each part, and a user agent without a value set in bulk. -/
theorem steps_act_by_part_of_mixed :
    let d : Draft :=
      { credentials := ⟨"http://host", "t", "id", "key", ""⟩, sessionToken := "s", options := {} }
    let ss : List Step := [.headers [("A", "1")], .target .put "/x", .appendParam "k" "v",
      .appendHeader "B" "2", .withoutSession, .appendPath "/y", .params []]
    let ts : List Step := [.target .put "/x", .appendPath "/y", .withoutSession,
      .appendParam "k" "v", .params [], .headers [("A", "1")], .appendHeader "B" "2"]
    let ps : Pairs := [("User-Agent", "mine"), ("user-agent", ""), ("", "x")]
    d.missing? = none ∧ (∃ r, (d.applyAll ss).request = .ok r ∧ (d.applyAll ts).request = .ok r) ∧
      (d.applyAll [.headers ps]).request
        = (d.applyAll [.headers [], .appendHeader "User-Agent" "mine",
            .appendHeader "user-agent" "", .appendHeader "" "x"]).request := by
  intro d ss ts ps
  have hd : d.missing? = none := by decide
  obtain ⟨-, hmixed, hbulk⟩ := steps_act_by_part d
  refine ⟨hd, hmixed hd ss ts ?_, (hbulk _ _ (.headers ps) [] []).2⟩
  intro k
  cases k <;> decide

end Draft
end AppBackend
