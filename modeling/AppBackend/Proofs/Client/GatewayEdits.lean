import AppBackend.Proofs.Client.Headers
import AppBackend.Proofs.Client.Traffic

/-!
# Gateways over time

What a gateway holds after any edits, and what a call of it sends. A gateway is edited one pair at a
time, and what it refuses then it cannot send later. Main statements: `PairEdit.foldl_run`, the
pairs after edits are the accepted ones that no later edit takes out; and
`content_type_follows_edits`, the headers of a call name a content type just when it has a body.
-/

namespace AppBackend

variable {ε ω : Type}

/-! ### Edits of a list of pairs -/

inductive PairEdit where
  | add (name value : String)
  | remove (name : String)
  | clear
deriving DecidableEq

namespace PairEdit

def takes (p : String × String) : PairEdit → Bool
  | add _ _ => false
  | remove name => p.1 == name
  | clear => true

/-- Whether a pair stays through all edits. -/
def stays (es : List PairEdit) (p : String × String) : Bool := es.all fun e => !takes p e

/-- The pairs that edits of an empty list leave: what is added, if it is accepted and stays through
all later edits. -/
def remaining (accepts : String × String → Bool) : List PairEdit → Pairs
  | [] => []
  | add name value :: es =>
    if accepts (name, value) && stays es (name, value) then (name, value) :: remaining accepts es
    else remaining accepts es
  | remove _ :: es => remaining accepts es
  | clear :: es => remaining accepts es

def run (accepts : String × String → Bool) (ps : Pairs) : PairEdit → Pairs
  | add name value => if accepts (name, value) then ps ++ [(name, value)] else ps
  | remove name => ps.filter fun p => p.1 != name
  | clear => []

variable {accepts : String × String → Bool}

theorem accepts_of_mem_remaining {es : List PairEdit} {p : String × String}
    (h : p ∈ remaining accepts es) : accepts p = true := by
  induction es with
  | nil => cases h
  | cons e es ih =>
    cases e with
    | add name value =>
      rw [remaining] at h
      split at h
      · rename_i hkept
        rcases List.mem_cons.1 h with rfl | h
        · exact (Bool.and_eq_true_iff.1 hkept).1
        · exact ih h
      · exact ih h
    | remove name => exact ih h
    | clear => exact ih h

theorem stays_add (name value : String) (es : List PairEdit) :
    stays (add name value :: es) = stays es := by
  funext p
  simp [stays, takes]

theorem filter_stays_remove (name : String) (es : List PairEdit) (ps : Pairs) :
    ps.filter (stays (remove name :: es)) = (ps.filter fun p => p.1 != name).filter (stays es) := by
  rw [List.filter_filter]
  refine List.filter_congr fun p _ => ?_
  rw [stays, List.all_cons, Bool.and_comm]
  rfl

theorem filter_stays_clear (es : List PairEdit) (ps : Pairs) :
    ps.filter (stays (clear :: es)) = [] := by
  simp [stays, takes]

/-- Of the pairs there before, those are left that stay through all edits. -/
theorem foldl_run (es : List PairEdit) (ps : Pairs) :
    es.foldl (run accepts) ps = ps.filter (stays es) ++ remaining accepts es := by
  -- over the edits, for any pairs there: the first edit is run, or it filters what was there before
  induction es generalizing ps with
  | nil =>
    have hall : ps.filter (stays []) = ps := List.filter_eq_self.2 fun _ _ => rfl
    rw [hall]
    exact (List.append_nil ps).symm
  | cons e es ih =>
    rw [List.foldl_cons, ih]
    cases e with
    | add name value =>
      rw [run, remaining, stays_add]
      by_cases haccepts : accepts (name, value) = true
      · rw [if_pos haccepts, haccepts, Bool.true_and, List.filter_append, List.append_assoc]
        by_cases hstays : stays es (name, value) = true
        · rw [if_pos hstays, List.filter_cons_of_pos hstays]
          rfl
        · rw [if_neg hstays, List.filter_cons_of_neg hstays]
          rfl
      · have hnot : ¬ (accepts (name, value) && stays es (name, value)) = true :=
          fun h => haccepts (Bool.and_eq_true_iff.1 h).1
        rw [if_neg haccepts, if_neg hnot]
    | remove name => rw [filter_stays_remove, run, remaining]
    | clear => rw [filter_stays_clear, run, remaining, List.filter_nil]

end PairEdit

/-! ### Edits of a gateway -/

namespace Gateway

inductive Edit where
  | header (e : PairEdit)
  | param (e : PairEdit)
  | contentType (contentType : String)
deriving DecidableEq

def edit (g : Gateway) : Edit → Gateway
  | .header (.add name value) => g.addHeader name value
  | .header (.remove name) => (g.removeHeader name).1
  | .header .clear => g.clearHeaders
  | .param (.add key value) => g.addParam key value
  | .param (.remove key) => (g.removeParam key).1
  | .param .clear => g.clearParams
  | .contentType contentType => g.setContentType contentType

def Edit.header? : Edit → Option PairEdit
  | header e => some e
  | _ => none

def Edit.param? : Edit → Option PairEdit
  | param e => some e
  | _ => none

def Edit.contentType? : Edit → Option String
  | contentType t => some t
  | _ => none

/-- A header is taken with both halves and if it does not name the content type. -/
def acceptsHeader (p : String × String) : Bool := Draft.isFull p && !isContentType p.1

theorem headers_edit (g : Gateway) (e : Edit) :
    (g.edit e).headers = e.header?.toList.foldl (PairEdit.run acceptsHeader) g.headers := by
  cases e with
  | header e =>
    cases e with
    | add name value =>
      rw [edit, addHeader, apply_ite headers]
      rfl
    | remove name => rfl
    | clear => rfl
  | param e =>
    cases e with
    | add key value =>
      rw [edit, addParam, apply_ite headers, ite_self]
      rfl
    | remove key => rfl
    | clear => rfl
  | contentType t => rfl

theorem params_edit (g : Gateway) (e : Edit) :
    (g.edit e).params = e.param?.toList.foldl (PairEdit.run Draft.isFull) g.params := by
  cases e with
  | header e =>
    cases e with
    | add name value =>
      rw [edit, addHeader, apply_ite params, ite_self]
      rfl
    | remove name => rfl
    | clear => rfl
  | param e =>
    cases e with
    | add key value =>
      rw [edit, addParam, apply_ite params]
      rfl
    | remove key => rfl
    | clear => rfl
  | contentType t => rfl

theorem rest_edit (g : Gateway) (e : Edit) :
    (g.edit e).name = g.name ∧ (g.edit e).method = g.method ∧
      (g.edit e).contentType = e.contentType?.toList.foldl (fun _ t => t) g.contentType := by
  cases e with
  | header e =>
    cases e with
    | add name value =>
      rw [edit, addHeader]
      split <;> exact ⟨rfl, rfl, rfl⟩
    | remove name => exact ⟨rfl, rfl, rfl⟩
    | clear => exact ⟨rfl, rfl, rfl⟩
  | param e =>
    cases e with
    | add key value =>
      rw [edit, addParam]
      split <;> exact ⟨rfl, rfl, rfl⟩
    | remove key => exact ⟨rfl, rfl, rfl⟩
    | clear => exact ⟨rfl, rfl, rfl⟩
  | contentType t => exact ⟨rfl, rfl, rfl⟩

/-- A part of a gateway after edits is what the edits of that part make of it. -/
theorem foldl_edit {α β : Type} (part : Gateway → α) (about : Edit → Option β) (step : α → β → α)
    (h : ∀ g e, part (g.edit e) = (about e).toList.foldl step (part g)) (es : List Edit)
    (g : Gateway) : part (es.foldl edit g) = (es.filterMap about).foldl step (part g) := by
  induction es generalizing g with
  | nil => rfl
  | cons e es ih =>
    rw [List.foldl_cons, ih, h, List.filterMap_cons]
    cases about e <;> rfl

theorem foldl_last {α : Type} (x : α) (xs : List α) :
    xs.foldl (fun _ y => y) x = xs.getLast?.getD x := by
  induction xs generalizing x with
  | nil => rfl
  | cons y ys ih => rw [List.foldl_cons, ih, List.getLast?_cons, Option.getD_some]

theorem held_after (es : List Edit) {g : Gateway} (hh : g.headers = []) (hp : g.params = [])
    (ht : g.contentType = "") :
    (es.foldl edit g).headers = PairEdit.remaining acceptsHeader (es.filterMap Edit.header?) ∧
      (es.foldl edit g).params = PairEdit.remaining Draft.isFull (es.filterMap Edit.param?) ∧
      (es.foldl edit g).contentType = (es.filterMap Edit.contentType?).getLast?.getD "" := by
  refine ⟨?_, ?_, ?_⟩
  · rw [foldl_edit headers Edit.header? _ headers_edit, hh, PairEdit.foldl_run]
    rfl
  · rw [foldl_edit params Edit.param? _ params_edit, hp, PairEdit.foldl_run]
    rfl
  · rw [foldl_edit Gateway.contentType Edit.contentType? _ fun g e => (rest_edit g e).2.2, ht,
      foldl_last]

theorem foldl_edit_fixed (es : List Edit) (g : Gateway) :
    (es.foldl edit g).name = g.name ∧ (es.foldl edit g).method = g.method := by
  induction es generalizing g with
  | nil => exact ⟨rfl, rfl⟩
  | cons e es ih =>
    obtain ⟨hname, hmethod, -⟩ := rest_edit g e
    rw [List.foldl_cons, (ih _).1, (ih _).2]
    exact ⟨hname, hmethod⟩

theorem without_eq (ps : Pairs) (name : String) :
    without ps name
      = (ps.filter fun p => p.1 != name, (ps.filter fun p => p.1 == name).length) := by
  have hlength := List.length_eq_length_filter_add (l := ps) (fun p => p.1 != name)
  simp only [bne, Bool.not_not] at hlength
  rw [without]
  simp only [Prod.mk.injEq, true_and, bne]
  omega

/-! ### The request of a call -/

theorem call_eq_plan (e : Engine ε ω) (now : Int) (g : Gateway) (body : Bytes) (c : Client ε ω) :
    g.call e now body c = (Operation.callGateway g body).plan.run e now c := by
  simp only [call, Operation.plan, Plan.run]
  by_cases hname : g.name = ""
  · simp [hname, Operation.firstFailure]
  have hname' : (g.name == "") = false := by simpa using hname
  cases htype : !(g.effectiveBody body).isEmpty && g.contentType == "" with
  | true => simp [hname, hname', Operation.firstFailure]
  | false => simp [hname, hname', Operation.firstFailure]

theorem applyAll_steps {d : Draft} (hd : d.missing? = none) (g : Gateway) (body : Bytes) :
    d.applyAll (g.steps body) = { d with
      method := g.method
      path := path ++ ("/" ++ g.name ++ g.subpath)
      headers := g.headers
        ++ if body = [] then [] else [(HeaderName.contentType, g.contentType)].filter Draft.isFull
      params := g.params
      body := if body = [] then d.body else body } := by
  rw [Draft.applyAll_of_complete hd, steps]
  cases body with
  | nil => simp [Draft.change]
  | cons b body =>
    simp only [List.isEmpty_cons, Bool.false_eq_true, if_false, List.cons_append, List.nil_append,
      List.foldl_cons, List.foldl_nil, Draft.change_appendHeader]
    rfl

theorem sendsBody_iff {m : Method} : m.sendsBody = true ↔ m = .post ∨ m = .put := by
  cases m <;> simp [Method.sendsBody]

theorem effectiveBody_eq (g : Gateway) (body : Bytes) :
    g.effectiveBody body = if g.method = .post ∨ g.method = .put then body else [] := by
  simp only [effectiveBody, sendsBody_iff]

theorem effectiveBody_ne_nil_iff {g : Gateway} {body : Bytes} :
    g.effectiveBody body ≠ [] ↔ (g.method = .post ∨ g.method = .put) ∧ body ≠ [] := by
  rw [effectiveBody_eq]
  split
  · rename_i h
    simp [h]
  · rename_i h
    simp [h]

/-- Whether a line names the content type, in whatever letters. -/
def namesContentType (line : String) : Bool :=
  (Request.headerPair? line).any fun p => isContentType p.1

theorem namesContentType_headerLine {name : String} (h : ':' ∉ name.toList) (value : String) :
    namesContentType (Request.headerLine name value) = isContentType name := by
  have hline : (Request.headerLine name value).toList
      = name.toList ++ ':' :: (' ' :: value.toList) := by
    simp [Request.headerLine, String.toList_append]
  rw [namesContentType, Request.headerPair?, hline, Text.cut?_append _ h, Option.map_some,
    Option.any_some, String.ofList_toList]

theorem filter_lines {ps : Pairs} (h : ∀ p ∈ ps, ':' ∉ p.1.toList) :
    (ps.map fun p => Request.headerLine p.1 p.2).filter namesContentType
      = (ps.filter fun p => isContentType p.1).map fun p => Request.headerLine p.1 p.2 := by
  rw [List.filter_map]
  refine congrArg _ (List.filter_congr fun p hp => ?_)
  exact namesContentType_headerLine (h p hp) p.2

theorem isAgent_of_isContentType {p : String × String} (h : isContentType p.1 = true) :
    Draft.isAgent p = false := by
  rw [isContentType, Text.sameName, beq_iff_eq] at h
  rw [Draft.isAgent, Text.sameName, h]
  decide

/-- The lines of a request that name the content type, by the headers that the caller gives. -/
theorem filter_headers {d : Draft} (hd : d.missing? = none) (hsession : d.withSession = true)
    (steps : List Draft.Step) (hcolon : ∀ p ∈ (d.applyAll steps).headers, ':' ∉ p.1.toList) :
    (d.applyAll steps).build.headers.filter namesContentType
      = (((d.applyAll steps).headers.filter Draft.isFull).filter fun p => isContentType p.1).map
        fun p => Request.headerLine p.1 p.2 := by
  have hno : ∀ p ∈ Draft.unasked d.credentials d.sessionToken, isContentType p.1 = false := by
    intro p hp
    simp only [Draft.unasked, List.mem_cons, List.not_mem_nil, or_false] at hp
    rcases hp with rfl | rfl | rfl | rfl
    · exact (by decide : isContentType HeaderName.appId = false)
    · exact (by decide : isContentType HeaderName.appKey = false)
    · exact (by decide : isContentType HeaderName.sessionToken = false)
    · exact (by decide : isContentType HeaderName.userAgent = false)
  rw [Draft.build, Draft.headerPairs_applyAll hd hsession,
    filter_lines fun p hp => Draft.colonless_of_mem_told hcolon hp,
    Draft.filter_told (fun p hp => isAgent_of_isContentType hp) hno]

theorem filter_untyped {ps : Pairs} (hps : ∀ p ∈ ps, isContentType p.1 = false) :
    (ps.filter Draft.isFull).filter (fun p => isContentType p.1) = [] := by
  refine List.filter_eq_nil_iff.2 fun p hp => ?_
  rw [hps p (List.mem_filter.1 hp).1]
  exact Bool.false_ne_true

/-! ### Calls -/

section
variable {e : Engine ε ω} {now : Int} {g : Gateway} {body : Bytes} {c : Client ε ω}

theorem call_of_untyped (hname : g.name ≠ "") (hbody : g.effectiveBody body ≠ [])
    (ht : g.contentType = "") : g.call e now body c = (.fatal .noContentType, c) := by
  simp [call, hname, hbody, ht]

theorem call_of_typed (hname : g.name ≠ "")
    (ht : g.effectiveBody body = [] ∨ g.contentType ≠ "") :
    g.call e now body c = c.request e now (g.steps (g.effectiveBody body)) .plain g.timeout := by
  have hnot : ¬ (!(g.effectiveBody body).isEmpty && g.contentType == "") = true := by
    rcases ht with hbody | ht
    · simp [hbody]
    · simp [ht]
  simp only [call, if_neg hname, if_neg hnot]

/-- A call is refused for want of a content type just when it has a body and none is set. -/
theorem call_eq_noContentType_iff {c : Client ε (ω × Traffic)} :
    (g.call e.recorded now body c).1 = .fatal .noContentType ↔
      g.name ≠ "" ∧ g.effectiveBody body ≠ [] ∧ g.contentType = "" := by
  by_cases hname : g.name = ""
  · have hcall : g.call e.recorded now body c = (.fatal .noApiName, c) := by simp [call, hname]
    simp [hcall, hname]
  · by_cases huntyped : g.effectiveBody body ≠ [] ∧ g.contentType = ""
    · rw [call_of_untyped hname huntyped.1 huntyped.2]
      exact ⟨fun _ => ⟨hname, huntyped⟩, fun _ => rfl⟩
    · refine ⟨fun h => ?_, fun h => absurd h.2 huntyped⟩
      have htyped : g.effectiveBody body = [] ∨ g.contentType ≠ "" := by tauto
      rw [call_of_typed hname htyped, Client.request] at h
      rcases (Client.flight_send e c _ g.timeout).of_fatal h with hf | hf
      · cases hf
      · cases hf

/-- A call that sends something has a name, and a content type if it has a body. -/
theorem typed_of_mem_call {t : Transfer × Exchange}
    (ht : t ∈ (g.call e.recorded now body c.recorded).2.traffic) :
    g.effectiveBody body = [] ∨ g.contentType ≠ "" := by
  by_contra huntyped
  rw [not_or, not_not] at huntyped
  by_cases hname : g.name = ""
  · have hcall : g.call e.recorded now body c.recorded = (.fatal .noApiName, c.recorded) := by
      simp [call, hname]
    rw [hcall] at ht
    cases ht
  · rw [call_of_untyped hname huntyped.1 huntyped.2] at ht
    cases ht

/-- What a call sends has the body of the call, if the method takes one, and names the content type
once if there is a body. -/
theorem request_of_mem_call {t : Transfer × Exchange}
    (ht : t ∈ (g.call e.recorded now body c.recorded).2.traffic)
    (hheaders : ∀ p ∈ g.headers, isContentType p.1 = false) :
    t.1.request.body = g.effectiveBody body ∧
      ((∀ p ∈ g.headers, ':' ∉ p.1.toList) →
        t.1.request.headers.filter namesContentType
          = if g.effectiveBody body = [] then [] else ["Content-Type: " ++ g.contentType]) := by
  have htyped := typed_of_mem_call ht
  rw [call_eq_plan] at ht
  obtain ⟨hd, hr⟩ := Plan.of_mem_traffic rfl ht
  have hsteps : (Operation.callGateway g body).plan.steps = g.steps (g.effectiveBody body) := rfl
  have hdraft := applyAll_steps hd g (g.effectiveBody body)
  rw [hsteps] at hr
  generalize g.effectiveBody body = sent at *
  have hgiven : ((c.service.draft now).applyAll (g.steps sent)).headers = g.headers
      ++ if sent = [] then [] else [(HeaderName.contentType, g.contentType)].filter Draft.isFull :=
    congrArg Draft.headers hdraft
  refine ⟨?_, fun hcolon => ?_⟩
  · rw [hr, Draft.build, hdraft]
    change (if sent = [] then [] else sent) = sent
    split
    · rename_i h
      exact h.symm
    · rfl
  · have hnames : ∀ p ∈ ((c.service.draft now).applyAll (g.steps sent)).headers,
        ':' ∉ p.1.toList := by
      intro p hp
      rw [hgiven, List.mem_append] at hp
      rcases hp with hp | hp
      · exact hcolon p hp
      · split at hp
        · cases hp
        · obtain rfl := List.mem_singleton.1 (List.mem_filter.1 hp).1
          exact (by decide : ':' ∉ HeaderName.contentType.toList)
    -- the gateway's own headers name no content type, so only the one put for the body is left
    rw [hr, filter_headers hd rfl (g.steps sent) hnames, hgiven, List.filter_append,
      List.filter_append, filter_untyped hheaders, List.nil_append]
    by_cases hsent : sent = []
    · rw [if_pos hsent, if_pos hsent]
      rfl
    · have hfull : Draft.isFull (HeaderName.contentType, g.contentType) = true :=
        Draft.isFull_iff.2
          ⟨(by decide : HeaderName.contentType ≠ ""), htyped.resolve_left hsent⟩
      have hnamed : isContentType HeaderName.contentType = true := by decide
      rw [if_neg hsent, if_neg hsent, List.filter_filter, List.filter_filter]
      simp only [List.filter_cons, hfull, hnamed]
      rfl

theorem call_recorded (e : Engine ε ω) (now : Int) (g : Gateway) (body : Bytes)
    (c : Client ε ω) :
    let out := g.call e.recorded now body c.recorded
    g.call e now body c = (out.1, out.2.unrecorded) := by
  intro out
  rw [show out = _ from call_eq_plan .., call_eq_plan, Plan.run_recorded rfl]

theorem exists_sent_call (hname : g.name ≠ "")
    (htyped : g.effectiveBody body = [] ∨ g.contentType ≠ "")
    (hcomplete : c.service.credentials.missing? = none)
    (hfree : c.service.pool.acquire? e.fresh ≠ none) :
    ∃ t, (g.call e.recorded now body c.recorded).2.traffic = [t] := by
  have hargs : (Operation.callGateway g body).plan.refused? = none := by
    rcases htyped with h | h
    · simp [Operation.plan, Operation.firstFailure, hname, h]
    · simp [Operation.plan, Operation.firstFailure, hname, h]
  rw [call_eq_plan]
  exact Plan.exists_traffic_of_free rfl hargs hcomplete hfree

end

/-- After any edits of a new gateway: the pairs that it holds are those added in full, in order,
without those taken out since; no header among them names the content type. What it then sends has
the body of the call if the method takes one. If no name has a colon, it names the content type
once, as it was set, if there is such a body, and otherwise not at all. A call is refused without
being sent just when there is such a body and no content type is set. -/
theorem content_type_follows_edits (name : String) (method : Method) (subpath : String)
    (timeout : Int) (es : List Edit) (e : Engine ε ω) (now : Int) (c : Client ε ω) :
    let g := es.foldl edit { name, method, subpath, timeout }
    (g.headers = PairEdit.remaining acceptsHeader (es.filterMap Edit.header?) ∧
      g.params = PairEdit.remaining Draft.isFull (es.filterMap Edit.param?) ∧
      g.contentType = (es.filterMap Edit.contentType?).getLast?.getD "") ∧
    (∀ p ∈ g.headers, p.1 ≠ "" ∧ p.2 ≠ "" ∧ isContentType p.1 = false) ∧
    (∀ p ∈ g.params, p.1 ≠ "" ∧ p.2 ≠ "") ∧
    (∀ key,
      g.removeHeader key = ({ g with headers := g.headers.filter fun p => p.1 != key },
        (g.headers.filter fun p => p.1 == key).length) ∧
      g.removeParam key = ({ g with params := g.params.filter fun p => p.1 != key },
        (g.params.filter fun p => p.1 == key).length)) ∧
    ∀ body : Bytes,
      let out := g.call e.recorded now body c.recorded
      g.call e now body c = (out.1, out.2.unrecorded) ∧
      (∀ t ∈ out.2.traffic,
        t.1.request.body = (if method = .post ∨ method = .put then body else []) ∧
        ((∀ p ∈ g.headers, ':' ∉ p.1.toList) → t.1.request.headers.filter namesContentType
          = if (method = .post ∨ method = .put) ∧ body ≠ [] then
              ["Content-Type: " ++ g.contentType]
            else [])) ∧
      (out.1 = .fatal .noContentType ↔
        name ≠ "" ∧ (method = .post ∨ method = .put) ∧ body ≠ [] ∧ g.contentType = "") ∧
      (out.1 = .fatal .noContentType → out.2 = c.recorded) ∧
      (name ≠ "" → out.1 ≠ .fatal .noContentType → c.service.credentials.missing? = none →
        c.service.pool.acquire? e.fresh ≠ none → ∃ t, out.2.traffic = [t]) := by
  intro g
  obtain ⟨hheaders, hparams, htype⟩ := held_after es (g := { name, method, subpath, timeout })
    rfl rfl rfl
  obtain ⟨hname, hmethod⟩ := foldl_edit_fixed es { name, method, subpath, timeout }
  change g.name = name at hname
  change g.method = method at hmethod
  have hfull : ∀ p ∈ g.headers, p.1 ≠ "" ∧ p.2 ≠ "" ∧ isContentType p.1 = false := by
    intro p hp
    have haccepts := PairEdit.accepts_of_mem_remaining (hheaders ▸ hp)
    rw [acceptsHeader, Bool.and_eq_true, Draft.isFull_iff, Bool.not_eq_true'] at haccepts
    exact ⟨haccepts.1.1, haccepts.1.2, haccepts.2⟩
  refine ⟨⟨hheaders, hparams, htype⟩, hfull, ?_, ?_, ?_⟩
  · intro p hp
    exact Draft.isFull_iff.1 (PairEdit.accepts_of_mem_remaining (hparams ▸ hp))
  · intro key
    rw [removeHeader, removeParam, without_eq, without_eq]
    exact ⟨rfl, rfl⟩
  · intro body out
    have hrefused : out.1 = .fatal .noContentType ↔
        name ≠ "" ∧ (method = .post ∨ method = .put) ∧ body ≠ [] ∧ g.contentType = "" := by
      rw [show out.1 = _ from rfl, call_eq_noContentType_iff, effectiveBody_ne_nil_iff, hname,
        hmethod, and_assoc]
    refine ⟨call_recorded e now g body c, ?_, hrefused, ?_, ?_⟩
    · intro t ht
      obtain ⟨hbody, hlines⟩ := request_of_mem_call ht fun p hp => (hfull p hp).2.2
      refine ⟨?_, fun hcolon => ?_⟩
      · rw [hbody, effectiveBody_eq, hmethod]
      · rw [hlines hcolon, ← hmethod]
        simp only [← effectiveBody_ne_nil_iff, ne_eq, ite_not]
    · intro h
      obtain ⟨hne, hcarries, hbody, huntyped⟩ := hrefused.1 h
      have hsent : g.effectiveBody body ≠ [] :=
        effectiveBody_ne_nil_iff.2 ⟨hmethod ▸ hcarries, hbody⟩
      exact congrArg Prod.snd (call_of_untyped (hname ▸ hne) hsent huntyped)
    · intro hne hnot hcomplete hfree
      have htyped : g.effectiveBody body = [] ∨ g.contentType ≠ "" := by
        by_contra huntyped
        rw [not_or, not_not] at huntyped
        exact hnot (congrArg Prod.fst
          (call_of_untyped (hname ▸ hne) huntyped.1 huntyped.2))
      exact exists_sent_call (hname ▸ hne) htyped hcomplete hfree

/-- A content type among the headers is not taken, in whatever letters; one of two headers is taken
out again. -/
theorem content_type_follows_edits_of_letters :
    let e : Engine Unit Unit := ⟨(), fun _ _ x w => (⟨[], .ok ()⟩, x, w)⟩
    let service : Service Unit := ⟨⟨"http://h", "t", "a", "k", ""⟩, {}, {}, .new 1 1, 60⟩
    let c : Client Unit Unit := ⟨service, {}, ()⟩
    let es : List Edit := [.header (.add "content-TYPE" "text/html"), .header (.add "A" "1"),
      .header (.add "B" ""), .header (.add "B" "2"), .header (.remove "A"),
      .contentType "text/plain"]
    let g := es.foldl edit { name := "api", method := .put, subpath := "", timeout := 5 }
    g.headers = [("B", "2")] ∧
    (∃ t, (g.call e.recorded 0 [65] c.recorded).2.traffic = [t] ∧ t.1.request.body = [65] ∧
      t.1.request.headers.filter namesContentType = ["Content-Type: text/plain"]) ∧
    ∃ t, (g.call e.recorded 0 [] c.recorded).2.traffic = [t] ∧
      t.1.request.headers.filter namesContentType = [] := by
  intro e service c es g
  have hheld : g.headers = [("B", "2")] := by decide
  obtain ⟨-, -, -, -, hcalls⟩ := content_type_follows_edits "api" .put "" 5 es e 0 c
  have hcolon : ∀ p ∈ g.headers, ':' ∉ p.1.toList := by decide
  have hsent (body : Bytes) : ∃ t, (g.call e.recorded 0 body c.recorded).2.traffic = [t] := by
    obtain ⟨-, -, hrefused, -, hsent⟩ := hcalls body
    refine hsent (by decide) (fun h => ?_) (by decide) (by decide)
    exact absurd (hrefused.1 h).2.2.2 (by decide)
  refine ⟨hheld, ?_, ?_⟩
  · obtain ⟨t, ht⟩ := hsent [65]
    obtain ⟨-, hrequest, -⟩ := hcalls [65]
    obtain ⟨hbody, hlines⟩ := hrequest t (ht ▸ List.mem_singleton_self t)
    exact ⟨t, ht, hbody, hlines hcolon⟩
  · obtain ⟨t, ht⟩ := hsent []
    obtain ⟨-, hrequest, -⟩ := hcalls []
    exact ⟨t, ht, (hrequest t (ht ▸ List.mem_singleton_self t)).2 hcolon⟩

end Gateway
end AppBackend
