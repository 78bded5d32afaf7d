import AppBackend.Client.Service
import Mathlib.Data.List.Perm.Basic

/-!
# Nested calls

A call of a service runs its body with an executor on loan, and the body may call the same service
again. A body ends with an outcome, or it panics; a panic goes up through the calls until someone
catches it. The run of a tree of calls leaves a trace, from which one reads how many bodies ran at
once. Main statement: `nested_calls_return_executors`, however calls nest and end, a body runs just
when fewer than all executors are out, and at the end all are back.
-/

namespace AppBackend

/-! ### Calls -/

/-- The draft of a call: made when the call is made, or before. -/
inductive Origin where
  | current (now : Int)
  | earlier (d : Draft)

inductive Ending where
  | returned (o : Outcome Response)
  | panicked

mutual

/-- A call whose body makes calls in turn, and then ends by its own doing. -/
inductive Call (ε ω : Type) where
  | call (origin : Origin) (steps : List Draft.Step) (inner : Calls ε ω)
    (own : Request → ε → Site ω → Ending × ε × Site ω)

/-- Calls one after the other, each with or without someone who catches its panic. -/
inductive Calls (ε ω : Type) where
  | nil
  | cons (first : Call ε ω) (caught : Bool) (rest : Calls ε ω)

end

/-- What is seen of a call at a depth: that its body began and ended, or the answer that it gave
without running its body. -/
inductive Mark where
  | began (depth : Nat)
  | ended (depth : Nat)
  | refused (depth : Nat) (answer : Ending)

variable {ε ω : Type}

def Ending.goesUp (caught : Bool) : Ending → Bool
  | .returned _ => false
  | .panicked => !caught

def Origin.draft (c : Client ε ω) : Origin → Draft
  | .current now => c.service.draft now
  | .earlier d => d

/-- The rest of a body after its inner calls, and the trace of the whole. -/
def finishBody (depth : Nat) (own : Request → ε → Site ω → Ending × ε × Site ω) (x : Executor ε)
    (r : Request) (inner : (Bool × List Mark) × Client ε ω) :
    (Ending × List Mark) × Executor ε × Client ε ω :=
  let trace := .began depth :: inner.1.2 ++ [.ended depth]
  match inner.1.1 with
  | true => ((.panicked, trace), x, inner.2)
  | false =>
    let (ending, engine, site) := own r x.engine inner.2.site
    ((ending, trace), { x with engine }, { inner.2 with site })

def refusal (depth : Nat) (f : Failure) : Ending × List Mark :=
  (.returned (.fatal f), [.refused depth (.returned (.fatal f))])

mutual

def Call.run (e : Engine ε ω) (depth : Nat) (c : Client ε ω) :
    Call ε ω → (Ending × List Mark) × Client ε ω
  | .call origin steps inner own =>
    c.execute e ((origin.draft c).applyAll steps) (refusal depth)
      fun x r c => finishBody depth own x r (inner.run e (depth + 1) c)

/-- The answer says whether a panic got through. -/
def Calls.run (e : Engine ε ω) (depth : Nat) (c : Client ε ω) :
    Calls ε ω → (Bool × List Mark) × Client ε ω
  | .nil => ((false, []), c)
  | .cons first caught rest =>
    let r := first.run e depth c
    if r.1.1.goesUp caught then ((true, r.1.2), r.2)
    else
      let s := rest.run e depth r.2
      ((s.1.1, r.1.2 ++ s.1.2), s.2)

end

structure Visit (ε ω : Type) where
  depth : Nat
  client : Client ε ω
  call : Call ε ω

def Visit.run (e : Engine ε ω) (v : Visit ε ω) : (Ending × List Mark) × Client ε ω :=
  v.call.run e v.depth v.client

mutual

/-- The calls reached in the run of a call, itself in front. -/
def Call.visits (e : Engine ε ω) (depth : Nat) (c : Client ε ω) : Call ε ω → List (Visit ε ω)
  | .call origin steps inner own =>
    ⟨depth, c, .call origin steps inner own⟩ ::
      (c.execute e ((origin.draft c).applyAll steps) (fun _ => [])
        fun x _ c => (inner.visits e (depth + 1) c, x, c)).1

def Calls.visits (e : Engine ε ω) (depth : Nat) (c : Client ε ω) : Calls ε ω → List (Visit ε ω)
  | .nil => []
  | .cons first caught rest =>
    let r := first.run e depth c
    first.visits e depth c ++ if r.1.1.goesUp caught then [] else rest.visits e depth r.2

end

mutual

/-- No draft made earlier lacks credentials. -/
def Call.Complete : Call ε ω → Prop
  | .call origin _ inner _ => (∀ d, origin = .earlier d → d.missing? = none) ∧ inner.Complete

def Calls.Complete : Calls ε ω → Prop
  | .nil => True
  | .cons first _ rest => first.Complete ∧ rest.Complete

end

/-! ### Traces -/

/-- The bodies running after a trace, when `n` run before it. -/
def level (n : Nat) : List Mark → Nat
  | [] => n
  | .began _ :: ms => level (n + 1) ms
  | .ended _ :: ms => level (n - 1) ms
  | .refused _ _ :: ms => level n ms

/-- The most bodies running at once during a trace. -/
def peak (n : Nat) : List Mark → Nat
  | [] => n
  | .began _ :: ms => max n (peak (n + 1) ms)
  | .ended _ :: ms => max n (peak (n - 1) ms)
  | .refused _ _ :: ms => max n (peak n ms)

theorem level_append (n : Nat) (s t : List Mark) : level n (s ++ t) = level (level n s) t := by
  induction s generalizing n with
  | nil => rfl
  | cons m s ih => cases m <;> exact ih _

theorem le_peak (n : Nat) (s : List Mark) : n ≤ peak n s := by
  cases s with
  | nil => exact Nat.le_refl n
  | cons m s => cases m <;> exact Nat.le_max_left ..

theorem peak_append (n : Nat) (s t : List Mark) :
    peak n (s ++ t) = max (peak n s) (peak (level n s) t) := by
  induction s generalizing n with
  | nil => exact (Nat.max_eq_right (le_peak n t)).symm
  | cons m s ih =>
    cases m with
    | began k => simp only [List.cons_append, peak, level, ih, Nat.max_assoc]
    | ended k => simp only [List.cons_append, peak, level, ih, Nat.max_assoc]
    | refused k f => simp only [List.cons_append, peak, level, ih, Nat.max_assoc]

/-- A call at a depth runs its body just when the depth is below the capacity; else it gives back
that no executor is left. -/
def Mark.Fits (capacity : Nat) : Mark → Prop
  | .began depth => depth < capacity
  | .ended depth => depth < capacity
  | .refused depth answer => capacity ≤ depth ∧ answer = .returned (.fatal .poolExhausted)

/-! ### Loans -/

/-- The executors with the ids `out` are on loan, and all others that were made are idle. -/
structure Pool.Lent (p : Pool ε) (out : List Nat) : Prop where
  capacity : p.created + p.creatable = p.capacity
  own : ∀ x ∈ p.idle, x.pool = p.id
  all : (out ++ p.idle.map Executor.id).Perm (List.range p.created)

namespace Pool.Lent

variable {p q : Pool ε} {out : List Nat} {x : Executor ε} {fresh : ε}

theorem length_eq (h : p.Lent out) : out.length + p.idle.length = p.created := by
  have := h.all.length_eq
  simpa using this

theorem le_length_of_none (h : p.Lent out) (ha : p.acquire? fresh = none) :
    p.capacity ≤ out.length := by
  obtain ⟨hidle, hc⟩ := Pool.acquire?_eq_none_iff.1 ha
  have hlen := h.length_eq
  have hcap := h.capacity
  rw [hidle, List.length_nil] at hlen
  omega

theorem acquire (h : p.Lent out) (ha : p.acquire? fresh = some (x, q)) :
    q.Lent (x.id :: out) ∧ x.pool = q.id ∧ q.id = p.id ∧ q.capacity = p.capacity ∧
      q.created = max p.created (out.length + 1) := by
  have hlen := h.length_eq
  have hcap := h.capacity
  have hall := h.all
  rcases Pool.acquire?_cases ha with ⟨hidle, hq⟩ | ⟨hidle, hc, hx, hq⟩
  · have hown := h.own
    rw [hidle] at hown hlen hall
    rw [List.map_cons] at hall
    rw [List.length_cons] at hlen
    rw [hq]
    refine ⟨⟨hcap, ?_, ?_⟩, hown x (List.mem_cons_self ..), rfl, rfl, ?_⟩
    · exact fun y hy => hown y (List.mem_cons_of_mem _ hy)
    · exact List.perm_middle.symm.trans hall
    · dsimp only
      omega
  · rw [hidle, List.length_nil] at hlen
    rw [hidle, List.map_nil, List.append_nil] at hall
    rw [hq, hx]
    refine ⟨⟨?_, ?_, ?_⟩, rfl, rfl, rfl, ?_⟩
    · dsimp only
      omega
    · simp [hidle]
    · simp only [hidle, List.map_nil, List.append_nil]
      rw [List.range_succ]
      exact (List.perm_append_singleton ..).symm.trans (hall.append_right _)
    · dsimp only
      omega

theorem release (h : p.Lent (x.id :: out)) (hx : x.pool = p.id) : (p.release x).Lent out := by
  rw [Pool.release_of_own hx]
  refine ⟨h.capacity, ?_, ?_⟩
  · intro y hy
    rcases List.mem_cons.1 hy with rfl | hy
    · exact hx
    · exact h.own y hy
  · exact List.perm_middle.trans h.all

end Pool.Lent

/-! ### What a run keeps -/

/-- What holds between the clients before and after a run at a depth, with executors `out` on loan
around it. -/
structure Kept (depth : Nat) (out : List Nat) (c c' : Client ε ω) (trace : List Mark) : Prop where
  credentials : c'.service.credentials = c.service.credentials
  capacity : c'.service.pool.capacity = c.service.pool.capacity
  number : c'.service.pool.id = c.service.pool.id
  lent : c'.service.pool.Lent out
  created : c'.service.pool.created = max c.service.pool.created (peak depth trace)
  level : level depth trace = depth
  fits : ∀ m ∈ trace, m.Fits c.service.pool.capacity

theorem kept_of_refused {depth : Nat} {out : List Nat} {c : Client ε ω}
    (hl : c.service.pool.Lent out) (hd : out.length = depth) {trace : List Mark}
    (hpeak : peak depth trace = depth) (hlevel : level depth trace = depth)
    (hfits : ∀ m ∈ trace, m.Fits c.service.pool.capacity) : Kept depth out c c trace where
  credentials := rfl
  capacity := rfl
  number := rfl
  lent := hl
  created := by
    have := hl.length_eq
    omega
  level := hlevel
  fits := hfits

theorem Kept.append {depth : Nat} {out : List Nat} {c₁ c₂ c₃ : Client ε ω} {s t : List Mark}
    (h₁ : Kept depth out c₁ c₂ s) (h₂ : Kept depth out c₂ c₃ t) :
    Kept depth out c₁ c₃ (s ++ t) where
  credentials := h₂.credentials.trans h₁.credentials
  capacity := h₂.capacity.trans h₁.capacity
  number := h₂.number.trans h₁.number
  lent := h₂.lent
  created := by rw [peak_append, h₁.level, h₂.created, h₁.created, Nat.max_assoc]
  level := by rw [level_append, h₁.level, h₂.level]
  fits := by
    intro m hm
    rcases List.mem_append.1 hm with hm | hm
    · exact h₁.fits m hm
    · have := h₂.fits m hm
      rwa [h₁.capacity] at this

theorem peak_body (depth : Nat) {trace : List Mark} (h : level (depth + 1) trace = depth + 1) :
    peak depth (.began depth :: trace ++ [.ended depth])
      = max (depth + 1) (peak (depth + 1) trace) := by
  have he : peak (depth + 1) [.ended depth] = depth + 1 := by
    simp only [peak, Nat.add_sub_cancel]
    omega
  have hle := le_peak (depth + 1) trace
  rw [List.cons_append, peak, peak_append, h, he]
  omega

theorem level_body (depth : Nat) {trace : List Mark} (h : level (depth + 1) trace = depth + 1) :
    level depth (.began depth :: trace ++ [.ended depth]) = depth := by
  rw [List.cons_append, level, level_append, h]
  rfl

theorem kept_of_loan {depth : Nat} {out : List Nat} {c : Client ε ω} {x : Executor ε}
    {pool : Pool ε} {fresh : ε} (hl : c.service.pool.Lent out) (hd : out.length = depth)
    (ha : c.service.pool.acquire? fresh = some (x, pool)) {c' : Client ε ω} {trace : List Mark}
    (h : Kept (depth + 1) (x.id :: out) { c with service := { c.service with pool } } c' trace)
    (engine : ε) (site : Site ω) :
    Kept depth out c (({ c' with site } : Client ε ω).giveBack { x with engine })
      (.began depth :: trace ++ [.ended depth]) := by
  obtain ⟨hlent, hx, hnum, hcap, hcreated⟩ := hl.acquire ha
  have hcap' : c'.service.pool.capacity = c.service.pool.capacity := h.capacity.trans hcap
  have hroom : depth < c.service.pool.capacity := by
    have := hlent.capacity
    omega
  have hmine : x.pool = c'.service.pool.id := hx.trans h.number.symm
  have hown : ({ x with engine } : Executor ε).pool = c'.service.pool.id := hmine
  have hlent' : (c'.service.pool.release { x with engine }).Lent out :=
    Pool.Lent.release (x := { x with engine }) h.lent hown
  have hrelease := Pool.release_of_own hown
  refine ⟨h.credentials, ?_, ?_, hlent', ?_, level_body depth h.level, ?_⟩
  · show (c'.service.pool.release _).capacity = _
    rw [hrelease]
    exact hcap'
  · show (c'.service.pool.release _).id = _
    rw [hrelease]
    exact h.number.trans hnum
  · show (c'.service.pool.release _).created = _
    rw [hrelease, peak_body depth h.level]
    have hc := h.created
    dsimp only at hc ⊢
    rw [hc, hcreated]
    omega
  · intro m hm
    simp only [List.cons_append, List.mem_cons, List.mem_append, List.not_mem_nil, or_false] at hm
    rcases hm with rfl | hm | rfl
    · exact hroom
    · have := h.fits m hm
      rwa [show ({ c with service := { c.service with pool } } : Client ε ω).service.pool.capacity
        = c.service.pool.capacity from hcap] at this
    · exact hroom

theorem missing?_draft {c : Client ε ω} {origin : Origin}
    (hc : c.service.credentials.missing? = none)
    (ho : ∀ d, origin = .earlier d → d.missing? = none) (steps : List Draft.Step) :
    ((origin.draft c).applyAll steps).missing? = none := by
  rw [Draft.missing?_applyAll]
  cases origin with
  | current now => exact hc
  | earlier d => exact ho d rfl

theorem finishBody_spec (depth : Nat) (own : Request → ε → Site ω → Ending × ε × Site ω)
    (x : Executor ε) (r : Request) (inner : (Bool × List Mark) × Client ε ω) :
    ∃ ending engine site, finishBody depth own x r inner =
      ((ending, .began depth :: inner.1.2 ++ [.ended depth]), { x with engine },
        { inner.2 with site }) := by
  unfold finishBody
  split
  · exact ⟨.panicked, x.engine, inner.2.site, rfl⟩
  · exact ⟨_, _, _, rfl⟩

theorem Call.began_or_refused (e : Engine ε ω) (t : Call ε ω) (depth : Nat) (c : Client ε ω) :
    .began depth ∈ (t.run e depth c).1.2 ∨
      ∃ f, t.run e depth c = (refusal depth f, c) := by
  cases t with
  | call origin steps inner own =>
    rw [Call.run]
    cases hm : ((origin.draft c).applyAll steps).missing? with
    | some f => exact Or.inr ⟨f, Client.execute_of_missing hm _ _ c⟩
    | none =>
      cases ha : c.service.pool.acquire? e.fresh with
      | none => exact Or.inr ⟨_, Client.execute_of_exhausted hm ha _ _⟩
      | some loan =>
        rw [Client.execute_of_loan hm ha]
        left
        dsimp only
        obtain ⟨ending, engine, site, hf⟩ := finishBody_spec depth own loan.1
          ((origin.draft c).applyAll steps).build
          (inner.run e (depth + 1) { c with service := { c.service with pool := loan.2 } })
        rw [hf]
        exact List.mem_cons_self ..

mutual

theorem Call.run_kept (e : Engine ε ω) (t : Call ε ω) {depth : Nat} {out : List Nat}
    {c : Client ε ω} (ht : t.Complete) (hc : c.service.credentials.missing? = none)
    (hl : c.service.pool.Lent out) (hd : out.length = depth) :
    Kept depth out c (t.run e depth c).2 (t.run e depth c).1.2 := by
  -- over the tree: the inner calls run one deeper, with this executor out too
  match t, ht with
  | .call origin steps inner own, ht =>
    have hm := missing?_draft hc ht.1 steps
    rw [Call.run]
    cases ha : c.service.pool.acquire? e.fresh with
    | none =>
      rw [Client.execute_of_exhausted hm ha]
      have hcap := hl.le_length_of_none ha
      refine kept_of_refused hl hd (Nat.max_self depth) rfl ?_
      intro m hmem
      rw [List.mem_singleton.1 hmem]
      exact ⟨by omega, rfl⟩
    | some loan =>
      obtain ⟨x, pool⟩ := loan
      rw [Client.execute_of_loan hm ha]
      have hlent := (hl.acquire ha).1
      have hdepth : (x.id :: out).length = depth + 1 := by simp [hd]
      have hin := Calls.run_kept e inner
        (c := { c with service := { c.service with pool } }) ht.2 hc hlent hdepth
      obtain ⟨ending, engine, site, hf⟩ := finishBody_spec depth own x
        ((origin.draft c).applyAll steps).build
        (inner.run e (depth + 1) { c with service := { c.service with pool } })
      dsimp only
      rw [hf]
      exact kept_of_loan hl hd ha hin engine site

theorem Calls.run_kept (e : Engine ε ω) (ts : Calls ε ω) {depth : Nat} {out : List Nat}
    {c : Client ε ω} (ht : ts.Complete) (hc : c.service.credentials.missing? = none)
    (hl : c.service.pool.Lent out) (hd : out.length = depth) :
    Kept depth out c (ts.run e depth c).2 (ts.run e depth c).1.2 := by
  match ts, ht with
  | .nil, _ => exact kept_of_refused hl hd rfl rfl (by simp [Calls.run])
  | .cons first caught rest, ht =>
    have h₁ := Call.run_kept e first ht.1 hc hl hd
    have hc' : (first.run e depth c).2.service.credentials.missing? = none := by
      rw [h₁.credentials]
      exact hc
    have h₂ := Calls.run_kept e rest ht.2 hc' h₁.lent hd
    rw [Calls.run]
    dsimp only
    split
    · exact h₁
    · exact h₁.append h₂

end

/-! ### Calls that are reached -/

/-- A call reached at its depth finds as many executors on loan. -/
structure Visit.Met (capacity : Nat) (v : Visit ε ω) : Prop where
  complete : v.call.Complete
  credentials : v.client.service.credentials.missing? = none
  capacity : v.client.service.pool.capacity = capacity
  lent : ∃ out, v.client.service.pool.Lent out ∧ out.length = v.depth

mutual

theorem Call.visits_met (e : Engine ε ω) (t : Call ε ω) {depth : Nat} {out : List Nat}
    {c : Client ε ω} (ht : t.Complete) (hc : c.service.credentials.missing? = none)
    (hl : c.service.pool.Lent out) (hd : out.length = depth) :
    ∀ v ∈ t.visits e depth c, v.Met c.service.pool.capacity := by
  match t, ht with
  | .call origin steps inner own, ht =>
    intro v hv
    rw [Call.visits] at hv
    rcases List.mem_cons.1 hv with rfl | hv
    · exact ⟨ht, hc, rfl, out, hl, hd⟩
    · have hm := missing?_draft hc ht.1 steps
      cases ha : c.service.pool.acquire? e.fresh with
      | none =>
        rw [Client.execute_of_exhausted hm ha] at hv
        cases hv
      | some loan =>
        obtain ⟨x, pool⟩ := loan
        rw [Client.execute_of_loan hm ha] at hv
        obtain ⟨hlent, -, -, hcap, -⟩ := hl.acquire ha
        have hdepth : (x.id :: out).length = depth + 1 := by simp [hd]
        have hin := Calls.visits_met e inner
          (c := { c with service := { c.service with pool } }) ht.2 hc hlent hdepth v hv
        rwa [show ({ c with service := { c.service with pool } } : Client ε ω).service.pool.capacity
          = c.service.pool.capacity from hcap] at hin

theorem Calls.visits_met (e : Engine ε ω) (ts : Calls ε ω) {depth : Nat} {out : List Nat}
    {c : Client ε ω} (ht : ts.Complete) (hc : c.service.credentials.missing? = none)
    (hl : c.service.pool.Lent out) (hd : out.length = depth) :
    ∀ v ∈ ts.visits e depth c, v.Met c.service.pool.capacity := by
  match ts, ht with
  | .nil, _ => simp [Calls.visits]
  | .cons first caught rest, ht =>
    intro v hv
    rw [Calls.visits] at hv
    rcases List.mem_append.1 hv with hv | hv
    · exact Call.visits_met e first ht.1 hc hl hd v hv
    · have h₁ := Call.run_kept e first ht.1 hc hl hd
      have hc' : (first.run e depth c).2.service.credentials.missing? = none := by
        rw [h₁.credentials]
        exact hc
      split at hv
      · cases hv
      · have h₂ := Calls.visits_met e rest ht.2 hc' h₁.lent hd v hv
        rwa [h₁.capacity] at h₂

end

theorem Visit.run_of_met {capacity : Nat} {v : Visit ε ω} (h : v.Met capacity) (e : Engine ε ω) :
    (.began v.depth ∈ (v.run e).1.2 ↔ v.depth < capacity) ∧
    (capacity ≤ v.depth → v.run e = (refusal v.depth .poolExhausted, v.client)) := by
  obtain ⟨out, hl, hd⟩ := h.lent
  have hk : Kept v.depth out v.client (v.run e).2 (v.run e).1.2 :=
    v.call.run_kept e h.complete h.credentials hl hd
  have hfits := hk.fits
  rw [h.capacity] at hfits
  rcases v.call.began_or_refused e v.depth v.client with hb | ⟨f, hf⟩
  · have hroom : v.depth < capacity := hfits (.began v.depth) hb
    exact ⟨⟨fun _ => hroom, fun _ => hb⟩, fun hle => by omega⟩
  · have hrun : v.run e = (refusal v.depth f, v.client) := hf
    have htrace : (v.run e).1.2 = [.refused v.depth (.returned (.fatal f))] := by
      rw [hrun]
      rfl
    obtain ⟨hle, hanswer⟩ := hfits (.refused v.depth (.returned (.fatal f))) (by simp [htrace])
    obtain rfl : f = .poolExhausted := by simpa using hanswer
    refine ⟨⟨fun hb => ?_, fun hlt => by omega⟩, fun _ => hrun⟩
    rw [htrace] at hb
    simp at hb

/-! ### A whole tree -/

/-- However calls nest and end: a call reached runs its body just when its depth is below the
capacity, and else answers that no executor is left and does nothing; at the end every executor made
is idle, and as many were made as bodies ran at once, if not more before. -/
theorem nested_calls_return_executors (e : Engine ε ω) (t : Call ε ω) (c : Client ε ω)
    (ht : t.Complete) (hc : c.service.credentials.missing? = none)
    (hl : c.service.pool.Lent []) :
    let r := t.run e 0 c
    (∀ v ∈ t.visits e 0 c,
      (.began v.depth ∈ (v.run e).1.2 ↔ v.depth < c.service.pool.capacity) ∧
      (c.service.pool.capacity ≤ v.depth →
        v.run e = (refusal v.depth .poolExhausted, v.client))) ∧
    (∀ depth, .began depth ∈ r.1.2 → depth < c.service.pool.capacity) ∧
    (∀ depth answer, .refused depth answer ∈ r.1.2 →
      c.service.pool.capacity ≤ depth ∧ answer = .returned (.fatal .poolExhausted)) ∧
    r.2.service.pool.Lent [] ∧
    r.2.service.pool.created = max c.service.pool.created (peak 0 r.1.2) ∧
    r.2.service.pool.created ≤ c.service.pool.capacity ∧
    r.2.service.pool.capacity = c.service.pool.capacity := by
  intro r
  have hk : Kept 0 [] c r.2 r.1.2 := t.run_kept e ht hc hl rfl
  have hcap := hk.lent.capacity
  have hsame := hk.capacity
  refine ⟨?_, ?_, ?_, hk.lent, hk.created, by omega, hsame⟩
  · intro v hv
    exact Visit.run_of_met (t.visits_met e ht hc hl rfl v hv) e
  · intro depth hm
    exact hk.fits _ hm
  · intro depth answer hm
    exact hk.fits _ hm

/-- One executor: the body makes a call that is refused, and panics. -/
theorem nested_calls_return_executors_of_panic :
    let e : Engine Unit Unit := ⟨(), fun _ _ engine backend => (⟨[], .ok ()⟩, engine, backend)⟩
    let child : Call Unit Unit := .call (.current 0) [] .nil fun _ x s => (.panicked, x, s)
    let root : Call Unit Unit :=
      .call (.current 0) [] (.cons child false .nil) fun _ x s => (.panicked, x, s)
    let credentials : Credentials := ⟨"http://h", "t", "a", "k", ""⟩
    let c : Client Unit Unit :=
      ⟨⟨credentials, {}, {}, .new 1 1, 60⟩, ⟨{}, ()⟩⟩
    (root.run e 0 c).2.service.pool.Lent [] ∧ (root.run e 0 c).2.service.pool.created = 1 := by
  intro e child root credentials c
  have ht : root.Complete := by simp [root, child, Call.Complete, Calls.Complete]
  have hc : c.service.credentials.missing? = none := by decide
  have hl : c.service.pool.Lent [] := ⟨rfl, by simp [c, Pool.new], by simp [c, Pool.new]⟩
  obtain ⟨-, -, -, hlent, hcreated, -⟩ := nested_calls_return_executors e root c ht hc hl
  have hpeak : peak 0 (root.run e 0 c).1.2 = 1 := by decide
  exact ⟨hlent, by rw [hcreated, hpeak]; rfl⟩

end AppBackend
