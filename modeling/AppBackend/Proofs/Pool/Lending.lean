import AppBackend.Transfer.Pool
import Mathlib.Data.List.Nodup
import Mathlib.Data.List.Perm.Basic

/-!
# Lending

Pools made one after the other, and the executors that are out of them: held by someone, or lost. An
executor moves to its holder when it is lent, and away when it is brought to a pool or dropped. A
record beside it says which pool lent it; the pools themselves go by the mark on the executor alone.
The invariant of one pool is `Balanced`, that of all pools together `Sound`. Main statement:
`sound_run`, after any actions the books of every pool balance.
-/

namespace AppBackend

/-- An executor outside all pools. -/
structure Loan (ε : Type) where
  /-- The place of the pool that lent it; none for an executor that stands alone. -/
  lender : Option Nat
  executor : Executor ε

structure Lending (ε : Type) where
  pools : List (Pool ε) := []
  held : List (Loan ε) := []
  /-- Dropped, or brought to a pool that did not lend it. -/
  lost : List (Loan ε) := []

namespace Lending

variable {ε : Type}

/-! ### Actions -/

/-- Pools and loans go by their places. Who brings an executor back may have used its engine. -/
inductive Action (ε : Type) where
  | make (capacity : Nat)
  | standAlone (engine : ε)
  | acquire (pool : Nat) (fresh : ε)
  | release (pool loan : Nat) (engine : ε)
  | drop (loan : Nat)

def numberAt (place : Nat) : Nat := place + 1

def step (w : Lending ε) : Action ε → Lending ε
  | .make capacity => { w with pools := w.pools ++ [.new (numberAt w.pools.length) capacity] }
  | .standAlone engine => { w with held := ⟨none, .standalone engine⟩ :: w.held }
  | .acquire i fresh =>
    match w.pools[i]?.bind fun p => p.acquire? fresh with
    | some (x, p) => { w with pools := w.pools.set i p, held := ⟨some i, x⟩ :: w.held }
    | none => w
  | .release i k engine =>
    match w.pools[i]?, w.held[k]? with
    | some p, some l =>
      { pools := w.pools.set i (p.release { l.executor with engine })
        held := w.held.eraseIdx k
        lost := if l.lender = some i then w.lost else l :: w.lost }
    | _, _ => w
  | .drop k =>
    match w.held[k]? with
    | some l => { w with held := w.held.eraseIdx k, lost := l :: w.lost }
    | none => w

def run (as : List (Action ε)) : Lending ε := as.foldl step {}

def capacities (as : List (Action ε)) : List Nat :=
  as.filterMap fun a => match a with
    | .make capacity => some capacity
    | _ => none

/-- The executors that the pool at a place has lent. -/
def lentBy (i : Nat) (ls : List (Loan ε)) : List (Executor ε) :=
  (ls.filter fun l => l.lender == some i).map (·.executor)

theorem lentBy_cons_self {i : Nat} (x : Executor ε) (ls : List (Loan ε)) :
    lentBy i (⟨some i, x⟩ :: ls) = x :: lentBy i ls := by simp [lentBy]

theorem lentBy_cons_of_eq {i : Nat} {l : Loan ε} (h : l.lender = some i) (ls : List (Loan ε)) :
    lentBy i (l :: ls) = l.executor :: lentBy i ls := by simp [lentBy, h]

theorem lentBy_cons_of_ne {i : Nat} {l : Loan ε} (h : l.lender ≠ some i) (ls : List (Loan ε)) :
    lentBy i (l :: ls) = lentBy i ls := by simp [lentBy, h]

theorem lentBy_eq_nil {i : Nat} {ls : List (Loan ε)} (h : ∀ l ∈ ls, l.lender ≠ some i) :
    lentBy i ls = [] := by
  have : ls.filter (fun l => l.lender == some i) = [] := by
    rw [List.filter_eq_nil_iff]
    intro l hl
    simpa using h l hl
  simp [lentBy, this]

theorem perm_eraseIdx {ls : List (Loan ε)} {k : Nat} {l : Loan ε} (h : ls[k]? = some l) :
    ls.Perm (l :: ls.eraseIdx k) := by
  obtain ⟨hk, rfl⟩ := List.getElem?_eq_some_iff.1 h
  exact (List.getElem_cons_eraseIdx_perm hk).symm

theorem lentBy_perm {i : Nat} {ls ms : List (Loan ε)} (h : ls.Perm ms) :
    (lentBy i ls).Perm (lentBy i ms) := (h.filter _).map _

/-! ### The books of one pool -/

/-- The books of the pool at a place, with the executors that it has lent and those that it has lost
since. -/
structure Balanced (i : Nat) (p : Pool ε) (out gone : List (Executor ε)) : Prop where
  number : p.id = numberAt i
  capacity : p.created + p.creatable = p.capacity
  own : ∀ x ∈ p.idle, x.pool = p.id
  distinct : ((p.idle ++ out).map Executor.id).Nodup
  below : ∀ x ∈ p.idle ++ out, x.id < p.created
  count : p.idle.length + out.length + gone.length = p.created

theorem balanced_new (i capacity : Nat) :
    Balanced i (Pool.new (numberAt i) capacity : Pool ε) [] [] where
  number := rfl
  capacity := Nat.zero_add capacity
  own := by simp [Pool.new]
  distinct := by simp [Pool.new]
  below := by simp [Pool.new]
  count := rfl

namespace Balanced

variable {i : Nat} {p q : Pool ε} {x : Executor ε} {out out' gone : List (Executor ε)}

theorem perm (h : Balanced i p out gone) (hp : out.Perm out') : Balanced i p out' gone where
  number := h.number
  capacity := h.capacity
  own := h.own
  distinct := (((hp.append_left p.idle).map _).nodup_iff).1 h.distinct
  below := fun x hx => h.below x ((hp.append_left p.idle).mem_iff.2 hx)
  count := by rw [← hp.length_eq]; exact h.count

theorem acquire {fresh : ε} (h : Balanced i p out gone) (ha : p.acquire? fresh = some (x, q)) :
    Balanced i q (x :: out) gone ∧ x.pool = numberAt i ∧ q.capacity = p.capacity := by
  rcases Pool.acquire?_cases ha with ⟨hidle, hq⟩ | ⟨hidle, hc, hx, hq⟩
  · have hperm : (p.idle ++ out).Perm (q.idle ++ x :: out) := by
      rw [hidle]
      exact List.perm_middle.symm
    have hcount := h.count
    have hown := h.own
    rw [hidle] at hcount hown
    rw [hq] at hperm ⊢
    refine ⟨⟨h.number, h.capacity, ?_, ?_, ?_, ?_⟩, ?_, rfl⟩
    · exact fun y hy => hown y (List.mem_cons_of_mem _ hy)
    · exact ((hperm.map _).nodup_iff).1 h.distinct
    · exact fun y hy => h.below y (hperm.mem_iff.2 hy)
    · simp only [List.length_cons] at hcount ⊢
      omega
    · rw [← h.number]
      exact hown x (List.mem_cons_self ..)
  · have hcount := h.count
    have hcap := h.capacity
    have hbelow := h.below
    have hdistinct := h.distinct
    rw [hidle] at hcount hbelow hdistinct
    simp only [List.nil_append, List.length_nil] at hcount hbelow hdistinct
    rw [hq, hx]
    refine ⟨⟨h.number, ?_, ?_, ?_, ?_, ?_⟩, h.number, rfl⟩
    · dsimp only
      omega
    · simp [hidle]
    · simp only [hidle, List.nil_append, List.map_cons, List.nodup_cons]
      refine ⟨?_, hdistinct⟩
      intro hm
      obtain ⟨y, hy, he⟩ := List.mem_map.1 hm
      have := hbelow y hy
      omega
    · simp only [hidle, List.nil_append, List.mem_cons]
      rintro y (rfl | hy)
      · exact Nat.lt_succ_self _
      · exact Nat.lt_succ_of_lt (hbelow y hy)
    · simp only [hidle, List.length_nil, List.length_cons]
      omega

theorem release (h : Balanced i p (x :: out) gone) (hx : x.pool = numberAt i) (engine : ε) :
    Balanced i (p.release { x with engine }) out gone := by
  have hown : ({ x with engine } : Executor ε).pool = p.id := hx.trans h.number.symm
  have hperm : ((p.idle ++ x :: out).map Executor.id).Perm
      ((({ x with engine } : Executor ε) :: p.idle ++ out).map Executor.id) := by
    simp
  rw [Pool.release_of_own hown]
  refine ⟨h.number, h.capacity, ?_, ?_, ?_, ?_⟩
  · intro y hy
    rcases List.mem_cons.1 hy with rfl | hy
    · exact hown
    · exact h.own y hy
  · exact (hperm.nodup_iff).1 h.distinct
  · intro y hy
    rcases List.mem_cons.1 (List.cons_append .. ▸ hy) with rfl | hy
    · exact h.below x (by simp)
    · refine h.below y ?_
      simp only [List.mem_append, List.mem_cons] at hy ⊢
      tauto
  · have hcount := h.count
    simp only [List.length_cons] at hcount ⊢
    omega

theorem lose (h : Balanced i p (x :: out) gone) : Balanced i p out (x :: gone) where
  number := h.number
  capacity := h.capacity
  own := h.own
  distinct := by
    have hperm : (p.idle ++ x :: out).Perm (x :: (p.idle ++ out)) := List.perm_middle
    have hd := ((hperm.map Executor.id).nodup_iff).1 h.distinct
    rw [List.map_cons, List.nodup_cons] at hd
    exact hd.2
  below := by
    intro y hy
    refine h.below y ?_
    simp only [List.mem_append, List.mem_cons] at hy ⊢
    tauto
  count := by
    have hcount := h.count
    simp only [List.length_cons] at hcount ⊢
    omega

theorem acquire?_eq_none_iff (h : Balanced i p out gone) (fresh : ε) :
    p.acquire? fresh = none ↔ p.idle = [] ∧ p.created = p.capacity := by
  have hcap := h.capacity
  rw [Pool.acquire?_eq_none_iff]
  constructor
  · rintro ⟨hidle, hc⟩
    exact ⟨hidle, by omega⟩
  · rintro ⟨hidle, hc⟩
    exact ⟨hidle, by omega⟩

end Balanced

/-! ### All pools together -/

def mark : Option Nat → Nat
  | none => 0
  | some i => numberAt i

theorem mark_eq_numberAt_iff {lender : Option Nat} {i : Nat} :
    mark lender = numberAt i ↔ lender = some i := by
  cases lender with
  | none => simp [mark, numberAt]
  | some j => simp [mark, numberAt]

structure Sound (w : Lending ε) : Prop where
  balanced : ∀ i p, w.pools[i]? = some p → Balanced i p (lentBy i w.held) (lentBy i w.lost)
  marked : ∀ l ∈ w.held, l.executor.pool = mark l.lender
  known : ∀ l, l ∈ w.held ∨ l ∈ w.lost → ∀ i, l.lender = some i → i < w.pools.length

theorem sound_empty : Sound ({} : Lending ε) where
  balanced := by simp
  marked := by simp
  known := by simp

namespace Sound

variable {w : Lending ε}

theorem make (h : Sound w) (capacity : Nat) : Sound (w.step (.make capacity)) where
  balanced := by
    intro i p hp
    have hp : (w.pools ++ [Pool.new (numberAt w.pools.length) capacity])[i]? = some p := hp
    show Balanced i p (lentBy i w.held) (lentBy i w.lost)
    by_cases hi : i < w.pools.length
    · rw [List.getElem?_append_left hi] at hp
      exact h.balanced i p hp
    -- the new pool: no loan can name its place yet
    · have hlen : i = w.pools.length := by
        have hbound := (List.getElem?_eq_some_iff.1 hp).1
        simp only [List.length_append, List.length_singleton] at hbound
        omega
      subst hlen
      have hnone : ∀ l, l ∈ w.held ∨ l ∈ w.lost → l.lender ≠ some w.pools.length := by
        intro l hl he
        have := h.known l hl _ he
        omega
      rw [List.getElem?_concat_length, Option.some.injEq] at hp
      rw [← hp, lentBy_eq_nil fun l hl => hnone l (Or.inl hl),
        lentBy_eq_nil fun l hl => hnone l (Or.inr hl)]
      exact balanced_new _ capacity
  marked := h.marked
  known := by
    intro l hl i hi
    have := h.known l hl i hi
    show i < (w.pools ++ [_]).length
    rw [List.length_append]
    omega

theorem standAlone (h : Sound w) (engine : ε) : Sound (w.step (.standAlone engine)) where
  balanced := by
    intro i p hp
    have hne : (⟨none, .standalone engine⟩ : Loan ε).lender ≠ some i := by simp
    show Balanced i p (lentBy i (⟨none, .standalone engine⟩ :: w.held)) (lentBy i w.lost)
    rw [lentBy_cons_of_ne hne]
    exact h.balanced i p hp
  marked := by
    intro l hl
    rcases List.mem_cons.1 hl with rfl | hl
    · rfl
    · exact h.marked l hl
  known := by
    rintro l (hl | hl) i hi
    · rcases List.mem_cons.1 hl with rfl | hl
      · simp at hi
      · exact h.known l (Or.inl hl) i hi
    · exact h.known l (Or.inr hl) i hi

theorem acquire (h : Sound w) (i : Nat) (fresh : ε) : Sound (w.step (.acquire i fresh)) := by
  unfold step
  dsimp only
  split
  · rename_i x q ha
    obtain ⟨p, hp, ha⟩ := Option.bind_eq_some_iff.1 ha
    have hi : i < w.pools.length := (List.getElem?_eq_some_iff.1 hp).1
    obtain ⟨hq, hx, -⟩ := (h.balanced i p hp).acquire ha
    refine ⟨?_, ?_, ?_⟩
    · intro j r hr
      by_cases hj : i = j
      · subst hj
        rw [List.getElem?_set_self hi, Option.some.injEq] at hr
        rw [← hr, lentBy_cons_self]
        exact hq
      · rw [List.getElem?_set_ne hj] at hr
        rw [lentBy_cons_of_ne (by simpa using hj)]
        exact h.balanced j r hr
    · intro l hl
      rcases List.mem_cons.1 hl with rfl | hl
      · exact hx
      · exact h.marked l hl
    · rintro l (hl | hl) j hj
      · rw [List.length_set]
        rcases List.mem_cons.1 hl with rfl | hl
        · exact Option.some.inj hj ▸ hi
        · exact h.known l (Or.inl hl) j hj
      · rw [List.length_set]
        exact h.known l (Or.inr hl) j hj
  · exact h

theorem balanced_of_lost (h : Sound w) {k : Nat} {l : Loan ε} (hl : w.held[k]? = some l) (i : Nat)
    (p : Pool ε) (hp : w.pools[i]? = some p) :
    Balanced i p (lentBy i (w.held.eraseIdx k)) (lentBy i (l :: w.lost)) := by
  have hb := (h.balanced i p hp).perm (lentBy_perm (perm_eraseIdx hl))
  by_cases hi : l.lender = some i
  · rw [lentBy_cons_of_eq hi] at hb ⊢
    exact hb.lose
  · rw [lentBy_cons_of_ne hi] at hb ⊢
    exact hb

theorem mem_of_lost {k : Nat} {l m : Loan ε} (hl : w.held[k]? = some l)
    (hm : m ∈ w.held.eraseIdx k ∨ m ∈ l :: w.lost) : m ∈ w.held ∨ m ∈ w.lost := by
  rcases hm with hm | hm
  · exact Or.inl (List.mem_of_mem_eraseIdx hm)
  · rcases List.mem_cons.1 hm with rfl | hm
    · exact Or.inl (List.mem_of_getElem? hl)
    · exact Or.inr hm

theorem drop (h : Sound w) (k : Nat) : Sound (w.step (.drop k)) := by
  unfold step
  dsimp only
  split
  · rename_i l hl
    refine ⟨fun i p hp => h.balanced_of_lost hl i p hp, ?_, ?_⟩
    · exact fun m hm => h.marked m (List.mem_of_mem_eraseIdx hm)
    · exact fun m hm => h.known m (mem_of_lost hl hm)
  · exact h

/-- A pool takes back what it lent and nothing else. -/
theorem release_eq (h : Sound w) {i k : Nat} {p : Pool ε} {l : Loan ε} (hp : w.pools[i]? = some p)
    (hl : w.held[k]? = some l) (hne : l.lender ≠ some i) (engine : ε) :
    p.release { l.executor with engine } = p := by
  apply Pool.release_of_foreign
  show l.executor.pool ≠ p.id
  rw [h.marked l (List.mem_of_getElem? hl), (h.balanced i p hp).number]
  exact fun he => hne (mark_eq_numberAt_iff.1 he)

theorem set_eq_self {ps : List (Pool ε)} {i : Nat} {p : Pool ε} (hp : ps[i]? = some p) :
    ps.set i p = ps := by
  obtain ⟨hi, rfl⟩ := List.getElem?_eq_some_iff.1 hp
  exact List.set_getElem_self hi

theorem pools_release_of_ne (h : Sound w) {i k : Nat} {l : Loan ε} (hl : w.held[k]? = some l)
    (hne : l.lender ≠ some i) (engine : ε) : (w.step (.release i k engine)).pools = w.pools := by
  unfold step
  dsimp only
  split
  · rename_i p m hp hm
    obtain rfl : m = l := Option.some.inj (hm.symm.trans hl)
    dsimp only
    rw [h.release_eq hp hl hne]
    exact set_eq_self hp
  · rfl

theorem release (h : Sound w) (i k : Nat) (engine : ε) : Sound (w.step (.release i k engine)) := by
  unfold step
  dsimp only
  split
  · rename_i p l hp hl
    have hi : i < w.pools.length := (List.getElem?_eq_some_iff.1 hp).1
    by_cases hlend : l.lender = some i
    -- home: the mark agrees, and only the books of this pool change
    · rw [if_pos hlend]
      refine ⟨?_, ?_, ?_⟩
      · intro j r hr
        dsimp only at hr ⊢
        by_cases hj : i = j
        · subst hj
          have hb := (h.balanced i p hp).perm (lentBy_perm (perm_eraseIdx hl))
          have hx : l.executor.pool = numberAt i := by
            rw [h.marked l (List.mem_of_getElem? hl), hlend]
            rfl
          rw [lentBy_cons_of_eq hlend] at hb
          rw [List.getElem?_set_self hi, Option.some.injEq] at hr
          rw [← hr]
          exact hb.release hx engine
        · have hne : l.lender ≠ some j := fun he => hj (Option.some.inj (hlend.symm.trans he))
          rw [List.getElem?_set_ne hj] at hr
          have hb := (h.balanced j r hr).perm (lentBy_perm (perm_eraseIdx hl))
          rw [lentBy_cons_of_ne hne] at hb
          exact hb
      · exact fun m hm => h.marked m (List.mem_of_mem_eraseIdx hm)
      · intro m hm j hj
        dsimp only at hm ⊢
        rw [List.length_set]
        exact h.known m (hm.imp_left List.mem_of_mem_eraseIdx) j hj
    -- elsewhere: the pool there does not change, and the lender's books lose one
    · rw [if_neg hlend, h.release_eq hp hl hlend, set_eq_self hp]
      refine ⟨fun j r hr => h.balanced_of_lost hl j r hr, ?_, ?_⟩
      · exact fun m hm => h.marked m (List.mem_of_mem_eraseIdx hm)
      · exact fun m hm => h.known m (mem_of_lost hl hm)
  · exact h

theorem step (h : Sound w) (a : Action ε) : Sound (w.step a) := by
  cases a with
  | make capacity => exact h.make capacity
  | standAlone engine => exact h.standAlone engine
  | acquire i fresh => exact h.acquire i fresh
  | release i k engine => exact h.release i k engine
  | drop k => exact h.drop k

end Sound

theorem sound_foldl (as : List (Action ε)) (w : Lending ε) (h : Sound w) :
    Sound (as.foldl step w) := by
  induction as generalizing w with
  | nil => exact h
  | cons a as ih => exact ih (w.step a) (h.step a)

theorem sound_run (as : List (Action ε)) : Sound (run as) := sound_foldl as {} sound_empty

/-! ### Capacities stay -/

theorem capacity_of_acquire? {p q : Pool ε} {fresh : ε} {x : Executor ε}
    (h : p.acquire? fresh = some (x, q)) : q.capacity = p.capacity := by
  rcases Pool.acquire?_cases h with ⟨-, hq⟩ | ⟨-, -, -, hq⟩
  · rw [hq]
  · rw [hq]

theorem capacity_release (p : Pool ε) (x : Executor ε) : (p.release x).capacity = p.capacity := by
  unfold Pool.release
  split
  · rfl
  · rfl

theorem map_capacity_set {ps : List (Pool ε)} {i : Nat} {p q : Pool ε} (hp : ps[i]? = some p)
    (hq : q.capacity = p.capacity) : (ps.set i q).map Pool.capacity = ps.map Pool.capacity := by
  rw [List.map_set, hq]
  obtain ⟨hi, rfl⟩ := List.getElem?_eq_some_iff.1 hp
  rw [← List.map_set, List.set_getElem_self hi]

theorem map_capacity_step (w : Lending ε) (a : Action ε) :
    (w.step a).pools.map Pool.capacity = w.pools.map Pool.capacity ++ capacities [a] := by
  cases a with
  | make capacity => simp [step, capacities, Pool.new]
  | standAlone engine => simp [step, capacities]
  | acquire i fresh =>
    unfold step
    dsimp only
    split
    · rename_i x q ha
      obtain ⟨p, hp, ha⟩ := Option.bind_eq_some_iff.1 ha
      simpa [capacities] using map_capacity_set hp (capacity_of_acquire? ha)
    · simp [capacities]
  | release i k engine =>
    unfold step
    dsimp only
    split
    · rename_i p l hp hl
      simpa [capacities] using map_capacity_set hp (capacity_release p _)
    · simp [capacities]
  | drop k =>
    unfold step
    dsimp only
    split
    · simp [capacities]
    · simp [capacities]

theorem capacities_cons (a : Action ε) (as : List (Action ε)) :
    capacities (a :: as) = capacities [a] ++ capacities as := by
  cases a <;> simp [capacities]

theorem map_capacity_foldl (as : List (Action ε)) (w : Lending ε) :
    (as.foldl step w).pools.map Pool.capacity = w.pools.map Pool.capacity ++ capacities as := by
  induction as generalizing w with
  | nil => simp [capacities]
  | cons a as ih =>
    rw [List.foldl_cons, ih, map_capacity_step, capacities_cons a as, List.append_assoc]

theorem map_capacity_run (as : List (Action ε)) :
    (run as).pools.map Pool.capacity = capacities as := map_capacity_foldl as {}

/-! ### The books after a run -/

/-- After any actions: a pool has made or may make exactly its capacity; what it holds idle is its
own; its executors, idle or lent, are told apart by their numbers; each of those made is idle, lent
or lost; it lends none exactly when it has none and has made all; and it takes back none but those it
lent. -/
theorem pool_books_balance (as : List (Action ε)) {i : Nat} {p : Pool ε}
    (hp : (run as).pools[i]? = some p) :
    (capacities as)[i]? = some p.capacity ∧
    p.created + p.creatable = p.capacity ∧
    (∀ x ∈ p.idle, x.pool = p.id) ∧
    (p.idle.map Executor.id).Nodup ∧
    ((lentBy i (run as).held).map Executor.id).Nodup ∧
    (p.idle.map Executor.id).Disjoint ((lentBy i (run as).held).map Executor.id) ∧
    (∀ x ∈ p.idle ++ lentBy i (run as).held, x.id < p.created) ∧
    p.idle.length + (lentBy i (run as).held).length + (lentBy i (run as).lost).length
      = p.created ∧
    p.created ≤ p.capacity ∧
    (∀ fresh, p.acquire? fresh = none ↔ p.idle = [] ∧ p.created = p.capacity) ∧
    (∀ l ∈ (run as).held, l.executor.pool = p.id ↔ l.lender = some i) ∧
    (∀ k l engine, (run as).held[k]? = some l → l.lender ≠ some i →
      ((run as).step (.release i k engine)).pools = (run as).pools) := by
  have hs := sound_run as
  have hb := hs.balanced i p hp
  have hcap := hb.capacity
  have hd := hb.distinct
  rw [List.map_append, List.nodup_append'] at hd
  refine ⟨?_, hcap, hb.own, hd.1, hd.2.1, hd.2.2, hb.below, hb.count, by omega,
    hb.acquire?_eq_none_iff, ?_, ?_⟩
  · rw [← map_capacity_run, List.getElem?_map, hp]
    rfl
  · intro l hl
    rw [hs.marked l hl, hb.number]
    exact mark_eq_numberAt_iff
  · intro k l engine hl hne
    exact hs.pools_release_of_ne hl hne engine

/-- Two pools, each with an executor of the other brought to it. -/
theorem pool_books_balance_of_exchange :
    let as : List (Action Unit) :=
      [.make 2, .make 1, .acquire 0 (), .acquire 1 (), .acquire 0 (), .release 0 1 (),
        .release 0 1 (), .standAlone (), .release 0 0 ()]
    (run as).pools[0]? = some ⟨1, 2, 0, 2, [⟨(), 1, 0⟩]⟩ ∧
    (lentBy 0 (run as).held).length + (lentBy 0 (run as).lost).length = 1 ∧
    (lentBy 1 (run as).lost).length = 1 := by
  intro as
  have hp : (run as).pools[0]? = some ⟨1, 2, 0, 2, [⟨(), 1, 0⟩]⟩ := by decide
  have hq : (run as).pools[1]? = some ⟨2, 1, 0, 1, []⟩ := by decide
  obtain ⟨-, -, -, -, -, -, -, hcount, -⟩ := pool_books_balance as hp
  obtain ⟨-, -, -, -, -, -, -, hcount', -⟩ := pool_books_balance as hq
  refine ⟨hp, ?_, ?_⟩
  · simp only [List.length_cons, List.length_nil] at hcount
    omega
  · have hnone : (lentBy 1 (run as).held).length = 0 := by decide
    simp only [List.length_nil] at hcount'
    omega

end Lending
end AppBackend
