import AppBackend.Text.Utf8

/-!
# Cutting text

Taking a text apart at a separator or at an octet offset, and comparing names without regard to the
case of ASCII letters. Main statements: `cut?_append` and `eq_of_cut?` say that a cut at the first
separator is exactly undone by joining; `split_joined` says the same of cutting at every separator.
-/

namespace AppBackend.Text

/-! ### The first separator -/

/-- The text before the first separator and the text after it. -/
def cut? (sep : Char) : List Char → Option (List Char × List Char)
  | [] => none
  | c :: cs => if c = sep then some ([], cs) else (cut? sep cs).map fun p => (c :: p.1, p.2)

theorem cut?_append {sep : Char} {l : List Char} (r : List Char) (h : sep ∉ l) :
    cut? sep (l ++ sep :: r) = some (l, r) := by
  induction l with
  | nil => simp [cut?]
  | cons c l ih =>
    have hc : c ≠ sep := fun e => h (by simp [e])
    have hl : sep ∉ l := fun m => h (List.mem_cons_of_mem _ m)
    simp [cut?, hc, ih hl]

theorem cut?_eq_none {sep : Char} {cs : List Char} : cut? sep cs = none ↔ sep ∉ cs := by
  induction cs with
  | nil => simp [cut?]
  | cons c cs ih =>
    by_cases h : c = sep
    · simp [cut?, h]
    · simp [cut?, h, ih, Ne.symm h]

theorem eq_of_cut? {sep : Char} {cs l r : List Char} (h : cut? sep cs = some (l, r)) :
    cs = l ++ sep :: r ∧ sep ∉ l := by
  induction cs generalizing l with
  | nil => simp [cut?] at h
  | cons c cs ih =>
    by_cases hc : c = sep
    · simp [cut?, hc] at h
      obtain ⟨rfl, rfl⟩ := h
      simp [hc]
    · simp only [cut?, hc, if_false, Option.map_eq_some_iff] at h
      obtain ⟨⟨l', r'⟩, h', e⟩ := h
      simp only [Prod.mk.injEq] at e
      obtain ⟨rfl, rfl⟩ := e
      have := ih h'
      exact ⟨by simp [this.1], by simp [Ne.symm hc, this.2]⟩

/-! ### Every separator -/

/-- The pieces between separators; one more than there are separators. -/
def split (sep : Char) : List Char → List (List Char)
  | [] => [[]]
  | c :: cs =>
    if c = sep then [] :: split sep cs
    else match split sep cs with
      | [] => [[c]]
      | p :: ps => (c :: p) :: ps

def joined (sep : Char) : List (List Char) → List Char
  | [] => []
  | [p] => p
  | p :: q :: ps => p ++ sep :: joined sep (q :: ps)

theorem split_of_not_mem {sep : Char} {p : List Char} (h : sep ∉ p) : split sep p = [p] := by
  induction p with
  | nil => rfl
  | cons c p ih =>
    have hc : c ≠ sep := fun e => h (by simp [e])
    simp [split, hc, ih fun m => h (List.mem_cons_of_mem _ m)]

theorem split_append {sep : Char} {p : List Char} (h : sep ∉ p) (cs : List Char) :
    split sep (p ++ sep :: cs) = p :: split sep cs := by
  induction p with
  | nil => simp [split]
  | cons c p ih =>
    have hc : c ≠ sep := fun e => h (by simp [e])
    simp [split, hc, ih fun m => h (List.mem_cons_of_mem _ m)]

theorem split_joined {sep : Char} {ps : List (List Char)} (hne : ps ≠ [])
    (h : ∀ p ∈ ps, sep ∉ p) : split sep (joined sep ps) = ps := by
  induction ps with
  | nil => exact absurd rfl hne
  | cons p ps ih =>
    cases ps with
    | nil => exact split_of_not_mem (h p (by simp))
    | cons q ps =>
      rw [joined, split_append (h p (by simp)), ih (by simp) fun x hx => h x (by simp [hx])]

theorem exists_of_mem {sep : Char} {cs : List Char} (h : sep ∈ cs) :
    ∃ l r, cs = l ++ sep :: r ∧ sep ∉ l := by
  cases hcut : cut? sep cs with
  | none => exact absurd h (cut?_eq_none.1 hcut)
  | some p => exact ⟨p.1, p.2, eq_of_cut? hcut⟩

theorem split_ne_nil (sep : Char) (cs : List Char) : split sep cs ≠ [] := by
  cases cs with
  | nil => simp [split]
  | cons c cs =>
    unfold split
    split
    · simp
    · split <;> simp

/-- A text with a separator has two pieces at least. -/
theorem split_of_mem {sep : Char} {cs : List Char} (h : sep ∈ cs) :
    ∃ p q rest, split sep cs = p :: q :: rest := by
  obtain ⟨l, r, rfl, hl⟩ := exists_of_mem h
  obtain ⟨q, rest, hrest⟩ := List.exists_cons_of_ne_nil (split_ne_nil sep r)
  exact ⟨l, q, rest, by rw [split_append hl, hrest]⟩

/-! ### Octet offsets -/

/-- What follows the first `n` octets, if a character begins there or the text ends there. -/
def dropOctets? : Nat → List Char → Option (List Char)
  | 0, cs => some cs
  | _ + 1, [] => none
  | n + 1, c :: cs =>
    if c.utf8Size ≤ n + 1 then dropOctets? (n + 1 - c.utf8Size) cs else none
termination_by _ cs => cs.length

def octetCount (cs : List Char) : Nat := cs.foldr (fun c n => c.utf8Size + n) 0

/-! ### Names -/

def sameName (a b : String) : Bool := a.toList.map Char.toLower == b.toList.map Char.toLower

theorem sameName_refl (a : String) : sameName a a = true := by simp [sameName]

end AppBackend.Text
