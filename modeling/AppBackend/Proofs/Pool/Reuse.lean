import AppBackend.Proofs.Pool.Lending
import Mathlib.Data.List.Induction
import Mathlib.Order.Bounds.Defs

/-!
# Reuse

What happens at one pool in the course of a run: it makes an executor, lends an idle one again, or
takes one back. Returns open and reuses close, like brackets: `Matched` says so of a stretch with
nothing left open, `Pending` names the return left open last, and `Settled` says that none is. Main
statement: `makes_at_need_and_reuses_latest`, an executor is made only when no return is open, so
that a pool has made as many as were ever out of it at once, and else the one returned last is lent.
-/

namespace AppBackend

/-- What happens at a pool, with the executor that is lent or taken back. -/
inductive Turn (ε : Type) where
  | made (x : Executor ε)
  | reused (x : Executor ε)
  | returned (x : Executor ε)

namespace Turn

variable {ε : Type} {s t u : List (Turn ε)} {x : Executor ε}

/-! ### Brackets -/

/-- Returns and reuses that match like brackets; a reuse lends what its return brought. -/
inductive Matched : List (Turn ε) → Prop where
  | nil : Matched []
  | pair {x : Executor ε} {s t : List (Turn ε)} :
    Matched s → Matched t → Matched (.returned x :: (s ++ .reused x :: t))

/-- Of the returns that no reuse has answered, the latest brought this executor. -/
def Pending (x : Executor ε) (t : List (Turn ε)) : Prop :=
  ∃ s u, t = s ++ .returned x :: u ∧ Matched u

/-- A reuse has answered every return. -/
def Settled (t : List (Turn ε)) : Prop :=
  ∀ s x u, t = s ++ .returned x :: u → ∃ v w, u = v ++ .reused x :: w ∧ Matched v

theorem Matched.append (hs : Matched s) (ht : Matched t) : Matched (s ++ t) := by
  induction hs with
  | nil => exact ht
  | pair hs _ _ ih =>
    rw [List.cons_append, List.append_assoc, List.cons_append]
    exact .pair hs ih

theorem Settled.append (hs : Settled s) (ht : Settled t) : Settled (s ++ t) := by
  intro r x u h
  rcases List.append_eq_append_iff.1 h with ⟨r', hr, ht'⟩ | ⟨s', hs', hu⟩
  · exact ht r' x u ht'
  · cases s' with
    | nil => exact ht [] x u hu.symm
    | cons e s' =>
      rw [List.cons_append, List.cons.injEq] at hu
      obtain ⟨rfl, rfl⟩ := hu
      obtain ⟨v, w, rfl, hv⟩ := hs r x s' hs'
      exact ⟨v, w ++ t, by simp, hv⟩

theorem settled_nil : Settled ([] : List (Turn ε)) := by
  intro s x u h
  simp at h

theorem settled_singleton {e : Turn ε} (he : ∀ x, e ≠ .returned x) : Settled [e] := by
  intro s x u h
  cases s with
  | nil => exact absurd (List.cons.inj h).1 (he x)
  | cons e s => simp at h

theorem Matched.settled (h : Matched t) : Settled t := by
  induction h with
  | nil => exact settled_nil
  | @pair x s t hs _ ihs iht =>
    intro r y u h
    cases r with
    | nil =>
      rw [List.nil_append, List.cons.injEq, returned.injEq] at h
      obtain ⟨rfl, rfl⟩ := h
      exact ⟨s, t, rfl, hs⟩
    | cons e r =>
      have hreused : Settled [.reused x] := settled_singleton nofun
      rw [List.cons_append, List.cons.injEq] at h
      exact (ihs.append (hreused.append iht)) r y u h.2

/-! ### What is left open -/

/-- The executors whose return is still open, the latest in front. -/
inductive Leaves : List (Turn ε) → List (Executor ε) → Prop where
  | settled {t : List (Turn ε)} : Settled t → Leaves t []
  | pending {t u : List (Turn ε)} {x : Executor ε} {xs : List (Executor ε)} :
    Leaves t xs → Matched u → Leaves (t ++ .returned x :: u) (x :: xs)

namespace Leaves

variable {xs : List (Executor ε)}

theorem append (h : Leaves t xs) (hu : Matched u) : Leaves (t ++ u) xs := by
  cases h with
  | settled ht => exact .settled (ht.append hu.settled)
  | pending ht hm =>
    rw [List.append_assoc, List.cons_append]
    exact .pending ht (hm.append hu)

theorem made (h : Leaves t []) (x : Executor ε) : Leaves (t ++ [.made x]) [] := by
  cases h with
  | settled ht => exact .settled (ht.append (settled_singleton nofun))

theorem returned (h : Leaves t xs) (x : Executor ε) : Leaves (t ++ [.returned x]) (x :: xs) :=
  .pending h .nil

/-- A reuse closes the bracket that its return opened, and all in between was closed before. -/
theorem reused (h : Leaves t (x :: xs)) : Leaves (t ++ [.reused x]) xs := by
  cases h with
  | pending ht hm =>
    rw [List.append_assoc, List.cons_append]
    exact ht.append (.pair hm .nil)

theorem isSettled (h : Leaves t []) : Settled t := by
  cases h with
  | settled ht => exact ht

theorem isPending (h : Leaves t (x :: xs)) : Pending x t := by
  cases h with
  | pending _ hm => exact ⟨_, _, rfl, hm⟩

end Leaves

end Turn

namespace Lending

variable {ε : Type}

/-! ### The turns of a pool -/

def idleAt (i : Nat) (w : Lending ε) : List (Executor ε) :=
  ((w.pools[i]?).map Pool.idle).getD []

def madeAt (i : Nat) (w : Lending ε) : Nat := ((w.pools[i]?).map Pool.created).getD 0

/-- How many executors of a pool are out of it: held by someone, or lost. -/
def outside (i : Nat) (w : Lending ε) : Nat :=
  (lentBy i w.held).length + (lentBy i w.lost).length

/-- What an action does at the pool at a place. A loan that leaves the number of executors made as
it is is a reuse; only an executor of its own is taken back. -/
def turn? (i : Nat) (w : Lending ε) : Action ε → Option (Turn ε)
  | .acquire j fresh =>
    if j = i then
      w.pools[i]?.bind fun p => (p.acquire? fresh).map fun (x, q) =>
        if q.created = p.created then .reused x else .made x
    else none
  | .release j k engine =>
    if j = i then
      (w.held[k]?.filter fun l => l.lender == some i).map fun l =>
        .returned { l.executor with engine }
    else none
  | .make _ | .standAlone _ | .drop _ => none

def turns (i : Nat) (w : Lending ε) : List (Action ε) → List (Turn ε)
  | [] => []
  | a :: as => (turn? i w a).toList ++ turns i (w.step a) as

theorem turns_concat (i : Nat) (w : Lending ε) (as : List (Action ε)) (a : Action ε) :
    turns i w (as ++ [a]) = turns i w as ++ (turn? i (as.foldl step w) a).toList := by
  induction as generalizing w with
  | nil => simp [turns]
  | cons b as ih => rw [List.cons_append, turns, ih, turns, List.foldl_cons, List.append_assoc]

theorem run_concat (as : List (Action ε)) (a : Action ε) :
    run (as ++ [a]) = (run as).step a := by
  rw [run, List.foldl_append]
  rfl

theorem idleAt_eq {i : Nat} {w : Lending ε} {p : Pool ε} (h : w.pools[i]? = some p) :
    idleAt i w = p.idle := by
  rw [idleAt, h]
  rfl

theorem madeAt_eq {i : Nat} {w : Lending ε} {p : Pool ε} (h : w.pools[i]? = some p) :
    madeAt i w = p.created := by
  rw [madeAt, h]
  rfl

/-- What a turn changes at its pool: one is made only if none is idle, and the idle ones are a
stack. -/
inductive Moved (i : Nat) (w v : Lending ε) : Option (Turn ε) → Prop where
  | kept : idleAt i v = idleAt i w → madeAt i v = madeAt i w → Moved i w v none
  | made {x : Executor ε} : idleAt i w = [] → idleAt i v = [] → madeAt i v = madeAt i w + 1 →
    Moved i w v (some (.made x))
  | reused {x : Executor ε} : idleAt i w = x :: idleAt i v → madeAt i v = madeAt i w →
    Moved i w v (some (.reused x))
  | returned {x : Executor ε} : idleAt i v = x :: idleAt i w → madeAt i v = madeAt i w →
    Moved i w v (some (.returned x))

namespace Moved

variable {i : Nat} {w v : Lending ε} {turn : Option (Turn ε)}

theorem madeAt_le (h : Moved i w v turn) : madeAt i w ≤ madeAt i v := by
  cases h with
  | kept _ hmade => exact Nat.le_of_eq hmade.symm
  | made _ _ hmade => omega
  | reused _ hmade => exact Nat.le_of_eq hmade.symm
  | returned _ hmade => exact Nat.le_of_eq hmade.symm

theorem madeAt_cases (h : Moved i w v turn) : madeAt i v = madeAt i w ∨ idleAt i v = [] := by
  cases h with
  | kept _ hmade => exact Or.inl hmade
  | made _ hidle _ => exact Or.inr hidle
  | reused _ hmade => exact Or.inl hmade
  | returned _ hmade => exact Or.inl hmade

end Moved

theorem moved_of_same {i : Nat} {w v : Lending ε} (h : v.pools[i]? = w.pools[i]?) :
    Moved i w v none := by
  refine .kept ?_ ?_
  · rw [idleAt, idleAt, h]
  · rw [madeAt, madeAt, h]

variable {w : Lending ε}

theorem moved_make (w : Lending ε) (i capacity : Nat) :
    Moved i w (w.step (.make capacity)) none := by
  have hstep : (w.step (.make capacity)).pools
      = w.pools ++ [Pool.new (numberAt w.pools.length) capacity] := rfl
  rcases Nat.lt_trichotomy i w.pools.length with hi | rfl | hi
  · exact moved_of_same (by rw [hstep, List.getElem?_append_left hi])
  · have hnone : w.pools[w.pools.length]? = none := List.getElem?_eq_none (Nat.le_refl _)
    have hnew : (w.step (.make capacity)).pools[w.pools.length]?
        = some (Pool.new (numberAt w.pools.length) capacity) := by
      rw [hstep, List.getElem?_concat_length]
    refine .kept ?_ ?_
    · rw [idleAt_eq hnew, idleAt, hnone]
      rfl
    · rw [madeAt_eq hnew, madeAt, hnone]
      rfl
  · refine moved_of_same ?_
    rw [hstep, List.getElem?_eq_none (by simp; omega), List.getElem?_eq_none (by omega)]

theorem moved_lend {i : Nat} {p q : Pool ε} {fresh : ε} {x : Executor ε}
    (hp : w.pools[i]? = some p) (ha : p.acquire? fresh = some (x, q)) :
    Moved i w (w.step (.acquire i fresh)) (turn? i w (.acquire i fresh)) := by
  have hi : i < w.pools.length := (List.getElem?_eq_some_iff.1 hp).1
  have hq : (w.step (.acquire i fresh)).pools[i]? = some q := by
    simp [step, hp, ha, List.getElem?_set_self hi]
  have hturn : turn? i w (.acquire i fresh)
      = some (if q.created = p.created then .reused x else .made x) := by
    simp [turn?, hp, ha]
  rw [hturn]
  rcases Pool.acquire?_cases ha with ⟨hidle, hsame⟩ | ⟨hidle, -, -, hsame⟩
  · have hcreated : q.created = p.created := by rw [hsame]
    rw [if_pos hcreated]
    refine .reused ?_ ?_
    · rw [idleAt_eq hp, idleAt_eq hq, hidle]
    · rw [madeAt_eq hp, madeAt_eq hq, hcreated]
  · have hcreated : q.created = p.created + 1 := by rw [hsame]
    rw [if_neg (by omega)]
    refine .made ?_ ?_ ?_
    · rw [idleAt_eq hp, hidle]
    · rw [idleAt_eq hq, hsame, hidle]
    · rw [madeAt_eq hp, madeAt_eq hq, hcreated]

theorem moved_acquire (w : Lending ε) (i j : Nat) (fresh : ε) :
    Moved i w (w.step (.acquire j fresh)) (turn? i w (.acquire j fresh)) := by
  by_cases hj : j = i
  · subst hj
    cases hr : w.pools[j]?.bind fun p => p.acquire? fresh with
    | some r =>
      obtain ⟨p, hp, ha⟩ := Option.bind_eq_some_iff.1 hr
      exact moved_lend hp ha
    | none =>
      have hstep : w.step (.acquire j fresh) = w := by simp [step, hr]
      have hturn : turn? j w (.acquire j fresh) = none := by
        simp only [turn?, if_true, Option.bind_eq_none_iff, Option.map_eq_none_iff] at hr ⊢
        exact hr
      rw [hturn, hstep]
      exact moved_of_same rfl
  · have hturn : turn? i w (.acquire j fresh) = none := if_neg hj
    rw [hturn]
    refine moved_of_same ?_
    unfold step
    dsimp only
    split
    · exact List.getElem?_set_ne hj
    · rfl

theorem moved_takeBack (h : Sound w) {i k : Nat} {l : Loan ε} (hl : w.held[k]? = some l)
    (hlend : l.lender = some i) (engine : ε) :
    Moved i w (w.step (.release i k engine)) (turn? i w (.release i k engine)) := by
  have hmem : l ∈ w.held := List.mem_of_getElem? hl
  have hi : i < w.pools.length := h.known l (Or.inl hmem) i hlend
  have hp : w.pools[i]? = some w.pools[i] := List.getElem?_eq_getElem hi
  have hown : ({ l.executor with engine } : Executor ε).pool = w.pools[i].id :=
    (h.marked l hmem).trans ((congrArg mark hlend).trans (h.balanced i _ hp).number.symm)
  have hq : (w.step (.release i k engine)).pools[i]?
      = some (w.pools[i].release { l.executor with engine }) := by
    simp [step, hp, hl, List.getElem?_set_self hi]
  have hturn : turn? i w (.release i k engine) = some (.returned { l.executor with engine }) := by
    simp [turn?, hl, hlend]
  rw [Pool.release_of_own hown] at hq
  rw [hturn]
  refine .returned ?_ ?_
  · rw [idleAt_eq hp, idleAt_eq hq]
  · rw [madeAt_eq hp, madeAt_eq hq]

theorem moved_release (h : Sound w) (i j k : Nat) (engine : ε) :
    Moved i w (w.step (.release j k engine)) (turn? i w (.release j k engine)) := by
  by_cases hj : j = i
  · subst hj
    cases hl : w.held[k]? with
    | none =>
      have hturn : turn? j w (.release j k engine) = none := by simp [turn?, hl]
      have hstep : w.step (.release j k engine) = w := by simp [step, hl]
      rw [hturn, hstep]
      exact moved_of_same rfl
    | some l =>
      by_cases hlend : l.lender = some j
      · exact moved_takeBack h hl hlend engine
      · have hturn : turn? j w (.release j k engine) = none := by simp [turn?, hl, hlend]
        rw [hturn]
        exact moved_of_same (by rw [h.pools_release_of_ne hl hlend engine])
  · have hturn : turn? i w (.release j k engine) = none := if_neg hj
    rw [hturn]
    refine moved_of_same ?_
    unfold step
    dsimp only
    split
    · exact List.getElem?_set_ne hj
    · rfl

theorem moved_step (h : Sound w) (i : Nat) (a : Action ε) : Moved i w (w.step a) (turn? i w a) := by
  cases a with
  | make capacity => exact moved_make w i capacity
  | standAlone engine => exact moved_of_same rfl
  | acquire j fresh => exact moved_acquire w i j fresh
  | release j k engine => exact moved_release h i j k engine
  | drop k =>
    refine moved_of_same ?_
    unfold step
    dsimp only
    split
    · rfl
    · rfl

/-! ### The turns of a run -/

theorem leaves_run (i : Nat) (as : List (Action ε)) :
    Turn.Leaves (turns i {} as) (idleAt i (run as)) := by
  induction as using List.reverseRecOn with
  | nil => exact .settled Turn.settled_nil
  | append_singleton as a ih =>
    rw [turns_concat, run_concat]
    have hm := moved_step (sound_run as) i a
    show Turn.Leaves (turns i {} as ++ (turn? i (run as) a).toList) _
    generalize turn? i (run as) a = turn at hm ⊢
    cases hm with
    | kept hidle _ =>
      rw [Option.toList_none, List.append_nil, hidle]
      exact ih
    | made hw hv _ =>
      rw [hw] at ih
      rw [hv]
      exact ih.made _
    | reused hidle _ =>
      rw [hidle] at ih
      exact ih.reused
    | returned hidle _ =>
      rw [hidle]
      exact ih.returned _

theorem append_cons_of_concat {α : Type} {s t u : List α} {e x : α} (h : t ++ [e] = s ++ x :: u) :
    (s = t ∧ x = e) ∨ ∃ v, t = s ++ x :: v := by
  rcases List.eq_nil_or_concat' u with rfl | ⟨v, y, rfl⟩
  · obtain ⟨rfl, he⟩ := List.append_inj' h rfl
    exact Or.inl ⟨rfl, (List.cons.inj he).1.symm⟩
  · rw [← List.cons_append, ← List.append_assoc] at h
    exact Or.inr ⟨v, (List.append_inj' h rfl).1⟩

/-- A reuse answers the return left open last. -/
theorem pending_of_reused {i : Nat} {as : List (Action ε)} {s u : List (Turn ε)} {x : Executor ε}
    (h : turns i {} as = s ++ .reused x :: u) : Turn.Pending x s := by
  induction as using List.reverseRecOn generalizing u with
  | nil => simp [turns] at h
  | append_singleton as a ih =>
    rw [turns_concat] at h
    change turns i {} as ++ (turn? i (run as) a).toList = _ at h
    have hl := leaves_run i as
    have hm := moved_step (sound_run as) i a
    generalize turn? i (run as) a = turn at h hm
    cases turn with
    | none =>
      rw [Option.toList_none, List.append_nil] at h
      exact ih h
    | some e =>
      rcases append_cons_of_concat h with ⟨rfl, rfl⟩ | ⟨v, hv⟩
      · cases hm with
        | reused hidle _ => exact (hidle ▸ hl).isPending
      · exact ih hv

/-! ### The most that were out -/

theorem outside_le (h : Sound w) (i : Nat) : outside i w ≤ madeAt i w := by
  cases hp : w.pools[i]? with
  | some p =>
    have hcount := (h.balanced i p hp).count
    rw [madeAt_eq hp, outside]
    omega
  | none =>
    have hlen : w.pools.length ≤ i := List.getElem?_eq_none_iff.1 hp
    have hnone : ∀ l, l ∈ w.held ∨ l ∈ w.lost → l.lender ≠ some i := by
      intro l hl he
      have := h.known l hl i he
      omega
    rw [outside, lentBy_eq_nil fun l hl => hnone l (Or.inl hl),
      lentBy_eq_nil fun l hl => hnone l (Or.inr hl)]
    exact Nat.zero_le _

theorem outside_eq (h : Sound w) {i : Nat} (hidle : idleAt i w = []) :
    outside i w = madeAt i w := by
  cases hp : w.pools[i]? with
  | some p =>
    have hcount := (h.balanced i p hp).count
    rw [idleAt_eq hp] at hidle
    rw [hidle, List.length_nil] at hcount
    rw [madeAt_eq hp, outside]
    omega
  | none =>
    have hle := outside_le h i
    have hzero : madeAt i w = 0 := by
      rw [madeAt, hp]
      rfl
    omega

/-- At every moment a pool has made as many as were ever out of it at once. -/
theorem isGreatest_outside (i : Nat) (as : List (Action ε)) :
    IsGreatest {n | ∃ before, before <+: as ∧ n = outside i (run before)} (madeAt i (run as)) := by
  induction as using List.reverseRecOn with
  | nil =>
    refine ⟨⟨[], List.prefix_refl [], rfl⟩, ?_⟩
    rintro n ⟨before, hb, rfl⟩
    rw [List.prefix_nil.1 hb]
    exact Nat.le_refl _
  | append_singleton as a ih =>
    have hs := sound_run (as ++ [a])
    have hm := moved_step (sound_run as) i a
    rw [← run_concat] at hm
    obtain ⟨⟨before, hbefore, hmade⟩, hbound⟩ := ih
    constructor
    · rcases hm.madeAt_cases with hsame | hidle
      · exact ⟨before, hbefore.trans (List.prefix_append ..), hsame.trans hmade⟩
      · exact ⟨as ++ [a], List.prefix_refl _, (outside_eq hs hidle).symm⟩
    · rintro n ⟨b, hb, rfl⟩
      rcases List.prefix_concat_iff.1 hb with rfl | hb
      · exact outside_le hs i
      · exact Nat.le_trans (hbound ⟨b, hb, rfl⟩) hm.madeAt_le

/-! ### Making and reusing -/

/-- After any actions: a pool has made as many executors as were ever out of it at once; every reuse
so far has lent what was returned last and not yet taken back; and a further loan makes a new
executor, numbered by how many were made before, if nothing returned is left, and else lends what
was returned last and not yet taken back. -/
theorem makes_at_need_and_reuses_latest (as : List (Action ε)) {i : Nat} {p : Pool ε}
    (hp : (run as).pools[i]? = some p) :
    IsGreatest {n | ∃ before, before <+: as ∧ n = outside i (run before)} p.created ∧
    (∀ s x u, turns i {} as = s ++ .reused x :: u → Turn.Pending x s) ∧
    ∀ fresh x q, p.acquire? fresh = some (x, q) →
      (Turn.Settled (turns i {} as) ∧ x = ⟨fresh, p.id, p.created⟩ ∧ q.created = p.created + 1) ∨
      (Turn.Pending x (turns i {} as) ∧ q.created = p.created) := by
  have hleaves := leaves_run i as
  have hmade := isGreatest_outside i as
  rw [idleAt_eq hp] at hleaves
  rw [madeAt_eq hp] at hmade
  refine ⟨hmade, fun s x u h => pending_of_reused h, ?_⟩
  intro fresh x q ha
  rcases Pool.acquire?_cases ha with ⟨hidle, hq⟩ | ⟨hidle, -, hx, hq⟩
  · rw [hidle] at hleaves
    exact Or.inr ⟨hleaves.isPending, by rw [hq]⟩
  · rw [hidle] at hleaves
    exact Or.inl ⟨hleaves.isSettled, hx, by rw [hq]⟩

/-- Two are out at most; the one with engine 7 came back first, so the one with engine 8 is next. -/
theorem makes_at_need_and_reuses_latest_of_two :
    let as : List (Action Nat) :=
      [.make 3, .make 1, .acquire 0 1, .acquire 0 2, .release 0 1 7, .acquire 1 5, .release 0 1 8,
        .release 0 0 9]
    let p : Pool Nat := ⟨1, 3, 1, 2, [⟨8, 1, 1⟩, ⟨7, 1, 0⟩]⟩
    (run as).pools[0]? = some p ∧
    (∃ before, before <+: as ∧ 2 = outside 0 (run before)) ∧
    Turn.Pending ⟨8, 1, 1⟩ (turns 0 {} as) := by
  intro as p
  have hp : (run as).pools[0]? = some p := by decide
  obtain ⟨hgreatest, -, hacquire⟩ := makes_at_need_and_reuses_latest as hp
  refine ⟨hp, hgreatest.1, ?_⟩
  rcases hacquire 4 ⟨8, 1, 1⟩ ⟨1, 3, 1, 2, [⟨7, 1, 0⟩]⟩ rfl with ⟨-, hx, -⟩ | ⟨hpending, -⟩
  · exact absurd hx (by decide)
  · exact hpending

end Lending
end AppBackend
