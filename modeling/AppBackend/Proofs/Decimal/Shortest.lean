import AppBackend.Decimal.Shortest
import AppBackend.Proofs.Decimal.Rounding
import AppBackend.Text.Numeral
import Mathlib.Data.Nat.Cast.Order.Field

/-!
# Shortest decimals are near

The decimal that is found for a binary64 number has few digits and does not lie beyond the end of
the interval in which everything rounds to that number. Main statement: `ofDouble_cases`.
-/

namespace AppBackend

/-! ### Lengths and values of numerals -/

namespace Numeral

theorem value_append (cs ds : List Char) :
    value (cs ++ ds) = value cs * 10 ^ ds.length + value ds := by
  induction ds using List.reverseRecOn with
  | nil => simp [value]
  | append_singleton ds d ih =>
    rw [← List.append_assoc, value_append_singleton, ih, value_append_singleton, List.length_append,
      List.length_singleton, Nat.pow_succ]
    ring

theorem value_cons (c : Char) (cs : List Char) :
    value (c :: cs) = digitValue c * 10 ^ cs.length + value cs := by
  have hfirst : value [c] = digitValue c := by simp [value]
  rw [← List.singleton_append, value_append, hfirst]

theorem value_zeros (n : Nat) : value (List.replicate n '0') = 0 := by
  induction n with
  | zero => rfl
  | succ n ih =>
    rw [List.replicate_succ, value_cons, ih]
    simp [digitValue]

theorem lt_pow_length_write (n : Nat) : n < 10 ^ (write n).length := by
  induction n using Nat.strongRecOn with
  | ind n ih =>
    by_cases h : n < 10
    · rw [write_of_lt h]
      simpa using h
    · have hshort := ih (n / 10) (by omega)
      rw [write_of_le (by omega), List.length_append, List.length_singleton, Nat.pow_succ]
      omega

theorem pow_length_write_le {n : Nat} (hn : 0 < n) : 10 ^ ((write n).length - 1) ≤ n := by
  induction n using Nat.strongRecOn with
  | ind n ih =>
    by_cases h : n < 10
    · rw [write_of_lt h]
      exact hn
    · have hshort := ih (n / 10) (by omega) (by omega)
      have hpos : 0 < (write (n / 10)).length := List.length_pos_iff.2 (write_ne_nil _)
      have hlength : (write (n / 10)).length = (write (n / 10)).length - 1 + 1 := by omega
      rw [write_of_le (by omega), List.length_append, List.length_singleton, Nat.add_sub_cancel,
        hlength, Nat.pow_succ]
      omega

end Numeral

namespace Double

/-- The end of the interval in which everything rounds to a magnitude. -/
def upper (x : Double) : ℚ := (x.parts.1 + 1 / 2) * 2 ^ x.parts.2

end Double

namespace Decimal.Shortest

/-! ### Intervals -/

theorem interval_low_pos {x : Double} (h : x.isZero = false) : 0 < (interval x).low := by
  have hcode : x.code ≠ 0 := by simpa [Double.isZero] using h
  have hpow : 0 < Nat.pow 2 52 := by decide
  have hm : 0 < x.parts.1 := by
    unfold Double.parts
    dsimp only
    split
    · rename_i he
      have hlt : x.code < Nat.pow 2 52 := Nat.lt_of_div_eq_zero hpow he
      rw [Nat.mod_eq_of_lt hlt]
      omega
    · exact Nat.add_pos_left hpow _
  have hn (k : Int) : 0 < (Double.shifted 1 1 k).1 := by
    unfold Double.shifted
    split
    · exact Nat.mul_pos Nat.one_pos (Nat.pow_pos (by decide))
    · exact Nat.one_pos
  have hlow : (interval x).low
      = (4 * x.parts.1 - if x.code % Nat.pow 2 52 = 0 ∧ Nat.pow 2 52 < x.code then 1 else 2)
        * (Double.shifted 1 1 (x.parts.2 - 2)).1 := rfl
  rw [hlow]
  refine Nat.mul_pos ?_ (hn _)
  split <;> omega

theorem interval_den_pos (x : Double) : 0 < (interval x).den :=
  Double.shifted_snd_pos Nat.one_pos 1 (x.parts.2 - 2)

/-- A quarter of the last binary place of a number. -/
theorem quarter_eq (x : Double) :
    ((Double.shifted 1 1 (x.parts.2 - 2)).1 : ℚ) / (interval x).den = 2 ^ x.parts.2 / 4 := by
  have hratio := Double.ratio_shifted 1 Nat.one_pos (x.parts.2 - 2)
  rw [zpow_sub₀ (by norm_num)] at hratio
  norm_num at hratio
  exact hratio

theorem interval_high (x : Double) : ((interval x).high : ℚ) / (interval x).den = x.upper := by
  have hhigh : (interval x).high
      = (4 * x.parts.1 + 2) * (Double.shifted 1 1 (x.parts.2 - 2)).1 := rfl
  rw [hhigh, Nat.cast_mul, mul_div_assoc, quarter_eq, Double.upper]
  push_cast
  ring

/-! ### Points of a grid -/

section
variable {i : Interval} {c : Nat} {k : Int}

theorem pos_of_contains (hi : 0 < i.low) (h : i.contains c k = true) : 0 < c := by
  rcases Nat.eq_zero_or_pos c with rfl | hc
  · have hs : 0 < (if 0 ≤ k then 1 else Nat.pow 10 (-k).toNat) := by
      split
      · exact Nat.one_pos
      · exact Nat.pow_pos (by decide)
    have hlow := Nat.mul_pos hi hs
    simp only [Interval.contains, Nat.zero_mul, ite_self] at h
    generalize (if 0 ≤ k then 1 else Nat.pow 10 (-k).toNat) = s at h hlow
    split at h <;> simp only [Bool.and_eq_true, decide_eq_true_eq] at h <;> omega
  · exact hc

theorem le_high_of_contains (hden : 0 < i.den) (h : i.contains c k = true) :
    (c : ℚ) * 10 ^ k ≤ i.high / i.den := by
  have hden' : (0 : ℚ) < i.den := by exact_mod_cast hden
  rw [le_div_iff₀ hden']
  rcases le_or_gt 0 k with hk | hk
  · obtain ⟨n, rfl⟩ := Int.eq_ofNat_of_zero_le hk
    have hle : c * 10 ^ n * i.den ≤ i.high := by
      simp only [Interval.contains, hk, if_true, Int.toNat_natCast, Nat.pow_eq, Nat.mul_one] at h
      split at h <;> simp only [Bool.and_eq_true, decide_eq_true_eq] at h <;> omega
    rw [zpow_natCast]
    exact_mod_cast hle
  · obtain ⟨n, hn⟩ := Int.eq_ofNat_of_zero_le (show 0 ≤ -k by omega)
    obtain rfl : k = -(n : Int) := by omega
    have hle : c * i.den ≤ i.high * 10 ^ n := by
      simp only [Interval.contains, not_le.2 hk, if_false, neg_neg, Int.toNat_natCast,
        Nat.pow_eq] at h
      split at h <;> simp only [Bool.and_eq_true, decide_eq_true_eq] at h <;> omega
    have hle' : (c : ℚ) * i.den ≤ i.high * 10 ^ n := by exact_mod_cast hle
    rw [zpow_neg, zpow_natCast, ← div_eq_mul_inv, div_mul_eq_mul_div, div_le_iff₀ (by positivity)]
    exact hle'

theorem contains_of_onGrid? (h : onGrid? i k = some c) : i.contains c k = true := by
  unfold onGrid? at h
  grind

/-- Only the points around a value are tried. -/
theorem le_of_onGrid? (h : onGrid? i k = some c) :
    (c : ℚ) ≤ i.value / i.den / 10 ^ k + 1 := by
  obtain ⟨n, d, hratio, hle⟩ : ∃ n d : Nat, (n : ℚ) / d = i.value / i.den / 10 ^ k ∧
      c ≤ n / d + 1 := by
    unfold onGrid? at h
    rcases le_or_gt 0 k with hk | hk
    · refine ⟨i.value, i.den * Nat.pow 10 k.toNat, ?_, by simp only [if_pos hk] at h; grind⟩
      obtain ⟨e, rfl⟩ := Int.eq_ofNat_of_zero_le hk
      rw [Int.toNat_natCast, zpow_natCast, div_div, Nat.pow_eq]
      push_cast
      rfl
    · refine ⟨i.value * Nat.pow 10 (-k).toNat, i.den, ?_, by
        simp only [if_neg (not_le.2 hk)] at h; grind⟩
      obtain ⟨e, he⟩ := Int.eq_ofNat_of_zero_le (show 0 ≤ -k by omega)
      obtain rfl : k = -(e : Int) := by omega
      rw [neg_neg, Int.toNat_natCast, zpow_neg, zpow_natCast, div_inv_eq_mul, Nat.pow_eq]
      push_cast
      ring
  rw [← hratio]
  have hfloor : ((n / d : Nat) : ℚ) ≤ n / d := Nat.cast_div_le
  have hcast : (c : ℚ) ≤ ((n / d : Nat) : ℚ) + 1 := by exact_mod_cast hle
  linarith

end

/-! ### The leading digit -/

theorem ratio_le_leadingExponent {n d : Nat} (hn : 0 < n) (hd : 0 < d) :
    (n : ℚ) / d ≤ 10 ^ (leadingExponent n d + 1) := by
  have hn' : (0 : ℚ) < n := by exact_mod_cast hn
  have hd' : (0 : ℚ) < d := by exact_mod_cast hd
  unfold leadingExponent
  split
  · have hlt := (Double.div_lt_iff hd _).1 (Numeral.lt_pow_length_write (n / d))
    rw [sub_add_cancel]
    rw [Nat.cast_pow] at hlt
    exact hlt.le
  · rename_i hless
    have hpos : 0 < d / n := Nat.div_pos (by omega) hn
    have hle := Numeral.pow_length_write_le hpos
    have hcount : 0 < digitCount (d / n) := List.length_pos_iff.2 (Numeral.write_ne_nil _)
    obtain ⟨e, he⟩ : ∃ e : Nat, digitCount (d / n) = e + 1 := ⟨digitCount (d / n) - 1, by omega⟩
    have hpow : (10 : ℚ) ^ e ≤ d / n := by
      have hcast : ((10 ^ e : Nat) : ℚ) ≤ ((d / n : Nat) : ℚ) := by
        have hlength : (Numeral.write (d / n)).length = e + 1 := he
        rw [hlength, Nat.add_sub_cancel] at hle
        exact_mod_cast hle
      rw [Nat.cast_pow, Nat.cast_ofNat] at hcast
      exact hcast.trans Nat.cast_div_le
    rw [he, show -((e + 1 : Nat) : Int) + 1 = -(e : Int) by omega, zpow_neg, zpow_natCast,
      div_le_iff₀ hd', inv_mul_eq_div, le_div_iff₀ (by positivity), mul_comm]
    exact (le_div_iff₀ hn').1 hpow

/-! ### What is found -/

/-- The decimal of a number: its digits are those of a natural that is not beyond the interval, less
the zeros at the end. -/
theorem ofDouble_cases {x : Double} (h : x.isZero = false) :
    ofDouble x = ⟨['0'], 0⟩ ∨ ∃ (c : Nat) (k : Int), 0 < c ∧ c ≤ 10 ^ 17 + 1 ∧
      (c : ℚ) * 10 ^ k ≤ x.upper ∧
      ofDouble x = ⟨stripZeros (Numeral.write c), k + ((Numeral.write c).length : Int) - 1⟩ := by
  have hden := interval_den_pos x
  have hvalue : 0 < (interval x).value := by
    have hle : (interval x).low ≤ (interval x).value :=
      Nat.mul_le_mul_right _ (Nat.sub_le ..)
    exact (interval_low_pos h).trans_le hle
  unfold ofDouble
  dsimp only
  split
  · rename_i c k hit
    obtain ⟨d, hd, hmap⟩ := List.exists_of_findSome?_eq_some hit
    obtain ⟨c', hgrid, heq⟩ := Option.map_eq_some_iff.1 hmap
    cases heq
    have hcontains := contains_of_onGrid? hgrid
    refine Or.inr ⟨c, _, pos_of_contains (interval_low_pos h) hcontains, ?_, ?_, rfl⟩
    · -- the value has at most `d + 1` digits before the point of this grid
      let p := leadingExponent (interval x).value (interval x).den
      have hlead := ratio_le_leadingExponent hvalue hden
      have hnear := le_of_onGrid? hgrid
      have hd : d ≤ 16 := by
        have := List.mem_range.1 hd
        omega
      have hscaled : ((interval x).value : ℚ) / (interval x).den / 10 ^ (p - (d : Int))
          ≤ 10 ^ 17 := by
        rw [div_le_iff₀ (by positivity), ← zpow_natCast, ← zpow_add₀ (by norm_num)]
        exact hlead.trans (zpow_le_zpow_right₀ (by norm_num) (by omega))
      have hcast : (c : ℚ) ≤ 10 ^ 17 + 1 := hnear.trans (by linarith)
      exact_mod_cast hcast
    · rw [← interval_high]
      exact le_high_of_contains hden hcontains
  · exact Or.inl rfl

end Decimal.Shortest
end AppBackend
