/-!
# Keyed lists

Values under text keys, in ascending order of the keys, each key once. `insert`, `erase` and
`ofList` keep that order. Main statements: `get?_insert` and `get?_erase`, what a look-up finds
after a change, `get?_merge`, what it finds after several, and `Ascending.insert`, the order stays.
-/

namespace AppBackend

abbrev Keyed (α : Type) := List (String × α)

namespace Keyed

variable {α : Type}

def get? : Keyed α → String → Option α
  | [], _ => none
  | (k, v) :: fs, key => if k = key then some v else get? fs key

/-- Puts a value under a key, in place of the one there. -/
def insert : Keyed α → String → α → Keyed α
  | [], key, x => [(key, x)]
  | (k, v) :: fs, key, x =>
    if key = k then (key, x) :: fs
    else if key < k then (key, x) :: (k, v) :: fs
    else (k, v) :: insert fs key x

def erase (fs : Keyed α) (key : String) : Keyed α := fs.filter fun f => f.1 != key

def eraseAll (fs : Keyed α) (keys : List String) : Keyed α := keys.foldl erase fs

def ofList (ms : List (String × α)) : Keyed α := ms.foldl (fun fs m => insert fs m.1 m.2) []

/-- The values of `fs` with those of `changes` put over them. -/
def merge (fs changes : Keyed α) : Keyed α := changes.foldl (fun gs m => insert gs m.1 m.2) fs

def values (fs : Keyed α) : List α := fs.map (·.2)

theorem get?_insert_self (fs : Keyed α) (key : String) (x : α) :
    get? (insert fs key x) key = some x := by
  induction fs with
  | nil => simp [insert, get?]
  | cons f fs ih =>
    obtain ⟨k, v⟩ := f
    by_cases h : key = k
    · simp [insert, get?, h]
    · by_cases hlt : key < k
      · simp [insert, get?, h, hlt]
      · simp [insert, get?, h, hlt, Ne.symm h, ih]

theorem get?_insert_of_ne (fs : Keyed α) {key other : String} (x : α) (h : key ≠ other) :
    get? (insert fs key x) other = get? fs other := by
  induction fs with
  | nil => simp [insert, get?, h]
  | cons f fs ih =>
    obtain ⟨k, v⟩ := f
    by_cases hk : key = k
    · subst hk
      simp [insert, get?, h]
    · by_cases hlt : key < k
      · simp [insert, get?, hk, hlt, h]
      · simp [insert, get?, hk, hlt, ih]

theorem get?_insert (fs : Keyed α) (key other : String) (x : α) :
    get? (insert fs key x) other = if key = other then some x else get? fs other := by
  split
  · rename_i h
    subst h
    exact get?_insert_self fs key x
  · rename_i h
    exact get?_insert_of_ne fs x h

theorem get?_erase (fs : Keyed α) (key other : String) :
    get? (erase fs key) other = if key = other then none else get? fs other := by
  unfold erase
  induction fs with
  | nil => simp [get?]
  | cons f fs ih =>
    obtain ⟨k, v⟩ := f
    by_cases hk : k = key
    · subst hk
      by_cases ho : k = other <;> simp_all [get?]
    · by_cases ho : k = other
      · subst ho
        simp [get?, hk, Ne.symm hk]
      · simp [get?, hk, ho, ih]

theorem get?_eraseAll (fs : Keyed α) (keys : List String) (key : String) :
    get? (eraseAll fs keys) key = if key ∈ keys then none else get? fs key := by
  induction keys generalizing fs with
  | nil => simp [eraseAll]
  | cons k keys ih =>
    rw [eraseAll, List.foldl_cons, ← eraseAll, ih, get?_erase]
    by_cases h : k = key
    · simp [h]
    · by_cases hm : key ∈ keys <;> simp [hm, h, Ne.symm h]

theorem mem_of_get? {fs : Keyed α} {key : String} {x : α} (h : get? fs key = some x) :
    (key, x) ∈ fs := by
  induction fs with
  | nil => simp [get?] at h
  | cons f fs ih =>
    obtain ⟨k, v⟩ := f
    by_cases hk : k = key
    · subst hk
      simp only [get?, if_true, Option.some.injEq] at h
      simp [h]
    · simp only [get?, hk, if_false] at h
      exact List.mem_cons_of_mem _ (ih h)

theorem get?_eq_none_of_ne {fs : Keyed α} {key : String} (h : ∀ f ∈ fs, f.1 ≠ key) :
    get? fs key = none := by
  induction fs with
  | nil => rfl
  | cons f fs ih =>
    obtain ⟨k, v⟩ := f
    rw [get?, if_neg (h (k, v) (List.mem_cons_self ..))]
    exact ih fun f hf => h f (List.mem_cons_of_mem _ hf)

theorem get?_filter (p : String → Bool) (fs : Keyed α) (key : String) :
    get? (fs.filter fun f => p f.1) key = if p key then get? fs key else none := by
  induction fs with
  | nil => simp [get?]
  | cons f fs ih =>
    obtain ⟨k, v⟩ := f
    by_cases hp : p k
    · by_cases hk : k = key
      · subst hk
        simp [get?, hp]
      · simp [get?, hp, hk, ih]
    · by_cases hk : k = key
      · subst hk
        simp [hp, ih]
      · simp [get?, hp, hk, ih]

theorem get?_merge_of_not_key {changes : Keyed α} {key : String} (h : ∀ f ∈ changes, f.1 ≠ key)
    (fs : Keyed α) : get? (merge fs changes) key = get? fs key := by
  induction changes generalizing fs with
  | nil => rfl
  | cons f changes ih =>
    rw [merge, List.foldl_cons, ← merge, ih fun g hg => h g (List.mem_cons_of_mem _ hg)]
    exact get?_insert_of_ne fs f.2 (h f (List.mem_cons_self ..))

/-! ### Keys left out -/

theorem eraseAll_eq_filter (fs : Keyed α) (keys : List String) :
    eraseAll fs keys = fs.filter fun f => f.1 ∉ keys := by
  induction keys generalizing fs with
  | nil => exact (List.filter_eq_self.2 fun _ _ => rfl).symm
  | cons k keys ih =>
    rw [eraseAll, List.foldl_cons, ← eraseAll, ih, erase, List.filter_filter]
    refine List.filter_congr fun f _ => ?_
    by_cases hk : f.1 = k <;> simp [hk]

/-- What is put under a key that is left out makes no difference. -/
theorem eraseAll_insert_of_mem {keys : List String} {key : String} (h : key ∈ keys) (fs : Keyed α)
    (x : α) : eraseAll (insert fs key x) keys = eraseAll fs keys := by
  rw [eraseAll_eq_filter, eraseAll_eq_filter]
  induction fs with
  | nil => simp [insert, h]
  | cons f fs ih =>
    obtain ⟨k, v⟩ := f
    unfold insert
    split
    · rename_i hk
      simp [← hk, h]
    split
    · simp [h]
    · rw [List.filter_cons, ih, List.filter_cons]

theorem eraseAll_eraseAll (fs : Keyed α) (keys : List String) :
    eraseAll (eraseAll fs keys) keys = eraseAll fs keys := by
  rw [eraseAll_eq_filter, eraseAll_eq_filter, List.filter_filter]
  refine List.filter_congr fun f _ => ?_
  rw [Bool.and_self]

/-! ### The order of the keys -/

/-- The keys ascend, so that each stands once. -/
def Ascending (fs : Keyed α) : Prop := fs.Pairwise fun f g => f.1 < g.1

instance (fs : Keyed α) : Decidable (Ascending fs) :=
  inferInstanceAs (Decidable (List.Pairwise _ fs))

/-- A key above all others goes to the end. -/
theorem insert_of_lt {fs : Keyed α} {key : String} (h : ∀ f ∈ fs, f.1 < key) (x : α) :
    insert fs key x = fs ++ [(key, x)] := by
  induction fs with
  | nil => rfl
  | cons f fs ih =>
    obtain ⟨k, v⟩ := f
    have hk : k < key := h (k, v) (List.mem_cons_self ..)
    have hne : key ≠ k := by
      rintro rfl
      exact String.lt_irrefl _ hk
    simp only [insert, hne, if_false, String.lt_asymm hk]
    rw [ih fun f hf => h f (List.mem_cons_of_mem _ hf)]
    rfl

theorem mem_insert {fs : Keyed α} {key : String} {x : α} {f : String × α}
    (h : f ∈ insert fs key x) : f = (key, x) ∨ f ∈ fs := by
  induction fs with
  | nil => simpa [insert] using h
  | cons g fs ih =>
    obtain ⟨k, v⟩ := g
    unfold insert at h
    split at h
    · rcases List.mem_cons.1 h with h | h
      · exact Or.inl h
      · exact Or.inr (List.mem_cons_of_mem _ h)
    split at h
    · exact List.mem_cons.1 h
    · rcases List.mem_cons.1 h with h | h
      · exact Or.inr (h ▸ List.mem_cons_self ..)
      · exact (ih h).imp_right (List.mem_cons_of_mem _)

theorem Ascending.insert {fs : Keyed α} (h : Ascending fs) (key : String) (x : α) :
    Ascending (fs.insert key x) := by
  induction fs with
  | nil => exact List.pairwise_singleton ..
  | cons f fs ih =>
    obtain ⟨k, v⟩ := f
    have hlt := (List.pairwise_cons.1 h).1
    have htail : Ascending fs := (List.pairwise_cons.1 h).2
    unfold Keyed.insert
    split
    · rename_i he
      exact List.pairwise_cons.2 ⟨fun g hg => he ▸ hlt g hg, htail⟩
    split
    · rename_i hk
      refine List.pairwise_cons.2 ⟨?_, h⟩
      intro g hg
      rcases List.mem_cons.1 hg with rfl | hg
      · exact hk
      · exact String.lt_trans hk (hlt g hg)
    · rename_i hne hk
      have hkey : k < key := by
        rcases Std.lt_trichotomy k key with hl | he | hg
        · exact hl
        · exact absurd he.symm hne
        · exact absurd hg hk
      refine List.pairwise_cons.2 ⟨?_, ih htail⟩
      intro g hg
      rcases mem_insert hg with rfl | hg
      · exact hkey
      · exact hlt g hg

/-- A key below all others goes to the front. -/
theorem insert_of_forall_lt {fs : Keyed α} {key : String} (h : ∀ f ∈ fs, key < f.1) (x : α) :
    insert fs key x = (key, x) :: fs := by
  cases fs with
  | nil => rfl
  | cons f fs =>
    obtain ⟨k, v⟩ := f
    have hk : key < k := h (k, v) (List.mem_cons_self ..)
    have hne : key ≠ k := by
      rintro rfl
      exact String.lt_irrefl _ hk
    rw [insert, if_neg hne, if_pos hk]

theorem Ascending.filter_insert {fs : Keyed α} (h : Ascending fs) (p : String → Bool)
    (key : String) (x : α) :
    (fs.insert key x).filter (fun f => p f.1)
      = if p key then Keyed.insert (fs.filter fun f => p f.1) key x
        else fs.filter fun f => p f.1 := by
  induction fs with
  | nil => cases hp : p key <;> simp [Keyed.insert, hp]
  | cons f fs ih =>
    obtain ⟨k, v⟩ := f
    obtain ⟨hlt, htail⟩ := List.pairwise_cons.1 h
    rw [Keyed.insert]
    split
    · rename_i he
      subst he
      cases hp : p key <;> simp [hp, Keyed.insert]
    split
    · rename_i hne hk
      have habove : ∀ f ∈ ((k, v) :: fs).filter (fun f => p f.1), key < f.1 := by
        intro f hf
        rcases List.mem_cons.1 (List.mem_filter.1 hf).1 with rfl | hf
        · exact hk
        · exact String.lt_trans hk (hlt f hf)
      rw [List.filter_cons, insert_of_forall_lt habove]
    · rename_i hne hk
      rw [List.filter_cons, ih htail]
      cases hpk : p k <;> cases hp : p key <;> simp [hpk, Keyed.insert, hne, hk]

theorem mem_merge {fs changes : Keyed α} {f : String × α} (h : f ∈ merge fs changes) :
    f ∈ fs ∨ f ∈ changes := by
  induction changes generalizing fs with
  | nil => exact Or.inl h
  | cons g changes ih =>
    rcases ih h with h | h
    · rcases mem_insert h with rfl | h
      · exact Or.inr (List.mem_cons_self ..)
      · exact Or.inl h
    · exact Or.inr (List.mem_cons_of_mem _ h)

theorem Ascending.merge {fs : Keyed α} (h : Ascending fs) (changes : Keyed α) :
    Ascending (fs.merge changes) := by
  induction changes generalizing fs with
  | nil => exact h
  | cons f changes ih => exact ih (h.insert f.1 f.2)

theorem Ascending.erase {fs : Keyed α} (h : Ascending fs) (key : String) :
    Ascending (fs.erase key) := List.Pairwise.filter _ h

theorem Ascending.eraseAll {fs : Keyed α} (h : Ascending fs) (keys : List String) :
    Ascending (fs.eraseAll keys) := by
  induction keys generalizing fs with
  | nil => exact h
  | cons k keys ih => exact ih (h.erase k)

theorem mem_eraseAll {fs : Keyed α} {keys : List String} {f : String × α}
    (h : f ∈ eraseAll fs keys) : f ∈ fs := by
  induction keys generalizing fs with
  | nil => exact h
  | cons k keys ih => exact (List.mem_filter.1 (ih h)).1

theorem Ascending.keys_ne {fs : Keyed α} (h : Ascending fs) :
    fs.Pairwise fun f g => f.1 ≠ g.1 := by
  refine List.Pairwise.imp ?_ h
  intro f g hlt he
  rw [he] at hlt
  exact String.lt_irrefl _ hlt

theorem Ascending.get?_of_mem {fs : Keyed α} (h : Ascending fs) {key : String} {x : α}
    (hm : (key, x) ∈ fs) : get? fs key = some x := by
  induction fs with
  | nil => cases hm
  | cons f fs ih =>
    obtain ⟨k, v⟩ := f
    obtain ⟨hlt, htail⟩ := List.pairwise_cons.1 h
    rcases List.mem_cons.1 hm with heq | hm
    · cases heq
      exact if_pos rfl
    · have hne : k ≠ key := by
        rintro rfl
        exact String.lt_irrefl k (hlt (k, x) hm)
      rw [get?, if_neg hne]
      exact ih htail hm

theorem Ascending.get?_eq_some_iff {fs : Keyed α} (h : Ascending fs) {key : String} {x : α} :
    get? fs key = some x ↔ (key, x) ∈ fs := ⟨mem_of_get?, h.get?_of_mem⟩

theorem Ascending.nodup {fs : Keyed α} (h : Ascending fs) : fs.Nodup := by
  refine List.Pairwise.imp ?_ h.keys_ne
  rintro f g hne rfl
  exact hne rfl

/-- Lists in which every look-up finds the same are the same. -/
theorem Ascending.ext {fs gs : Keyed α} (hfs : Ascending fs) (hgs : Ascending gs)
    (h : ∀ key, get? fs key = get? gs key) : fs = gs := by
  have hperm : fs.Perm gs := by
    refine (List.perm_ext_iff_of_nodup hfs.nodup hgs.nodup).2 ?_
    rintro ⟨key, x⟩
    rw [← hfs.get?_eq_some_iff, ← hgs.get?_eq_some_iff, h key]
  refine hperm.eq_of_pairwise ?_ hfs hgs
  intro f g _ _ hfg hgf
  exact absurd hgf (String.lt_asymm hfg)

/-- Of values under keys that all differ, each is found after all have been put in. -/
theorem get?_merge_of_ne {changes : Keyed α} (h : changes.Pairwise fun f g => f.1 ≠ g.1)
    (fs : Keyed α) (key : String) :
    get? (merge fs changes) key = (get? changes key).or (get? fs key) := by
  induction changes generalizing fs with
  | nil => rfl
  | cons f changes ih =>
    obtain ⟨k, v⟩ := f
    obtain ⟨hne, htail⟩ := List.pairwise_cons.1 h
    have hstep : merge fs ((k, v) :: changes) = merge (fs.insert k v) changes := rfl
    rw [hstep, ih htail, get?_insert]
    by_cases hk : k = key
    · subst hk
      simp [get?, get?_eq_none_of_ne fun f hf => (hne f hf).symm]
    · simp [get?, hk]

theorem get?_ofList {ms : List (String × α)} (h : ms.Pairwise fun f g => f.1 ≠ g.1)
    (key : String) : get? (ofList ms) key = get? ms key := by
  have hmerge := get?_merge_of_ne h [] key
  rwa [show get? ([] : Keyed α) key = none from rfl, Option.or_none] at hmerge

theorem get?_merge {changes : Keyed α} (h : Ascending changes) (fs : Keyed α) (key : String) :
    get? (merge fs changes) key = (get? changes key).or (get? fs key) :=
  get?_merge_of_ne h.keys_ne fs key

end Keyed
end AppBackend
