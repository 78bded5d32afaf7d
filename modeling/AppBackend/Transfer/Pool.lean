import AppBackend.Transfer.Executor

/-!
# Executor pools

A pool makes at most `capacity` executors and lends them out, last returned first. It never waits:
with none idle and none left to make, there is none to lend. Main statements: `acquire?_eq_none_iff`
says when that is, `acquire?_cases` what is lent otherwise, and `release_of_own` that what comes
back stands in front.
-/

namespace AppBackend

structure Pool (ε : Type) where
  /-- Tells the pool's own executors from others; 0 is no pool's. -/
  id : Nat
  capacity : Nat
  /-- How many more may be made. -/
  creatable : Nat
  created : Nat
  /-- Executors not lent out, the one returned last in front. -/
  idle : List (Executor ε)
deriving DecidableEq

namespace Pool

variable {ε : Type}

def new (id capacity : Nat) : Pool ε := ⟨id, capacity, capacity, 0, []⟩

/-- The executor returned last, else a new one around `fresh`, else none. -/
def acquire? (p : Pool ε) (fresh : ε) : Option (Executor ε × Pool ε) :=
  match p.idle with
  | x :: idle => some (x, { p with idle })
  | [] =>
    match p.creatable with
    | 0 => none
    | n + 1 => some (⟨fresh, p.id, p.created⟩, { p with creatable := n, created := p.created + 1 })

/-- An executor comes back. One of another pool is dropped. -/
def release (p : Pool ε) (x : Executor ε) : Pool ε :=
  if x.pool = p.id then { p with idle := x :: p.idle } else p

theorem acquire?_eq_none_iff {p : Pool ε} {fresh : ε} :
    p.acquire? fresh = none ↔ p.idle = [] ∧ p.creatable = 0 := by
  unfold acquire?
  split
  · simp_all
  · split <;> simp_all

/-- What is lent is the executor in front or a new one, and nothing else changes. -/
theorem acquire?_cases {p q : Pool ε} {fresh : ε} {x : Executor ε}
    (h : p.acquire? fresh = some (x, q)) :
    (p.idle = x :: q.idle ∧ q = { p with idle := q.idle }) ∨
      (p.idle = [] ∧ p.creatable = q.creatable + 1 ∧ x = ⟨fresh, p.id, p.created⟩ ∧
        q = { p with creatable := q.creatable, created := p.created + 1 }) := by
  unfold acquire? at h
  split at h
  · rename_i y idle hp
    simp only [Option.some.injEq, Prod.mk.injEq] at h
    obtain ⟨rfl, rfl⟩ := h
    exact Or.inl ⟨hp, rfl⟩
  · rename_i hp
    split at h
    · simp at h
    · rename_i n hn
      simp only [Option.some.injEq, Prod.mk.injEq] at h
      obtain ⟨rfl, rfl⟩ := h
      exact Or.inr ⟨hp, hn, rfl, rfl⟩

theorem release_of_own {p : Pool ε} {x : Executor ε} (h : x.pool = p.id) :
    p.release x = { p with idle := x :: p.idle } := by
  simp [release, h]

theorem release_of_foreign {p : Pool ε} {x : Executor ε} (h : x.pool ≠ p.id) : p.release x = p := by
  simp [release, h]

end Pool
end AppBackend
