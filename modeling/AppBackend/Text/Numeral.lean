/-!
# Decimal numerals

Whole numbers as digits, with the bound of the word that is to hold them. Main statement:
`read?_write`, a number written reads back.
-/

namespace AppBackend.Numeral

def isDigit (c : Char) : Bool := '0' ≤ c && c ≤ '9'

def digitValue (c : Char) : Nat := c.toNat - '0'.toNat

def value (cs : List Char) : Nat := cs.foldl (fun n c => n * 10 + digitValue c) 0

/-- The number that a text spells: an optional `+`, then digits and nothing else, below `bound`. -/
def read? (bound : Nat) (cs : List Char) : Option Nat :=
  let ds := match cs with
    | '+' :: ds => ds
    | ds => ds
  if !ds.isEmpty && ds.all isDigit && value ds < bound then some (value ds) else none

def write (n : Nat) : List Char := Nat.toDigits 10 n

/-! ### What is written -/

theorem isDigit_eq (c : Char) : isDigit c = c.isDigit := by
  rfl

theorem toNat_of_isDigit {c : Char} (h : isDigit c = true) : 48 ≤ c.toNat ∧ c.toNat ≤ 57 := by
  simp only [isDigit, Bool.and_eq_true, decide_eq_true_eq] at h
  exact h

theorem isDigit_of_mem_write {n : Nat} {c : Char} (h : c ∈ write n) : isDigit c = true := by
  rw [isDigit_eq]
  exact Nat.isDigit_of_mem_toDigits (by decide) (by decide) h

theorem write_ne_nil (n : Nat) : write n ≠ [] := Nat.toDigits_ne_nil

theorem write_of_lt {n : Nat} (h : n < 10) : write n = [n.digitChar] := Nat.toDigits_of_lt_base h

theorem write_of_le {n : Nat} (h : 10 ≤ n) :
    write n = write (n / 10) ++ [(n % 10).digitChar] := Nat.toDigits_of_base_le (by decide) h

theorem value_append_singleton (cs : List Char) (c : Char) :
    value (cs ++ [c]) = value cs * 10 + digitValue c := by
  simp [value, List.foldl_append]

theorem digitValue_digitChar {n : Nat} (h : n < 10) : digitValue n.digitChar = n := by
  have := Nat.toNat_digitChar_of_lt_ten h
  rw [digitValue, this]
  simp

theorem value_write (n : Nat) : value (write n) = n := by
  induction n using Nat.strongRecOn with
  | ind n ih =>
    by_cases h : n < 10
    · rw [write_of_lt h]
      simp [value, digitValue_digitChar h]
    · rw [write_of_le (by omega), value_append_singleton, ih (n / 10) (by omega),
        digitValue_digitChar (by omega)]
      omega

theorem read?_write {bound n : Nat} (h : n < bound) : read? bound (write n) = some n := by
  have hdigits : (write n).all isDigit = true :=
    List.all_eq_true.2 fun _ hc => isDigit_of_mem_write hc
  have hnonempty : (write n).isEmpty = false := by simpa using write_ne_nil n
  unfold read?
  split
  · rename_i ds hplus
    have hdigit : isDigit '+' = true := isDigit_of_mem_write (hplus ▸ List.mem_cons_self ..)
    exact absurd hdigit (by decide)
  · simp [hdigits, hnonempty, value_write, h]

/-- No number but zero is written with a zero in front. -/
theorem head?_write_ne {n : Nat} (h : 0 < n) : (write n).head? ≠ some '0' := by
  induction n using Nat.strongRecOn with
  | ind n ih =>
    by_cases hlt : n < 10
    · rw [write_of_lt hlt]
      simp
      omega
    · have hne := ih (n / 10) (by omega) (by omega)
      rw [write_of_le (by omega)]
      cases hw : write (n / 10) with
      | nil => exact absurd hw (write_ne_nil _)
      | cons c cs =>
        rw [hw] at hne
        exact hne

end AppBackend.Numeral
