import AppBackend.Decimal.Double
import Mathlib.Algebra.Order.Field.Power
import Mathlib.Data.Rat.Cast.Order
import Mathlib.Tactic.FieldSimp
import Mathlib.Tactic.Linarith
import Mathlib.Tactic.NormNum
import Mathlib.Tactic.Positivity
import Mathlib.Tactic.Ring

/-!
# Rounding keeps the order

Numbers are compared by their codes, ratios as they are. The larger ratio is rounded to the larger
code, so what is below something that fits the format fits it too. Main statements: `ofRatio?_of_le`,
and from it `isSome_ofDecimal?_of_le` and `isSome_ofDecimal?_of_nonpos`.
-/

namespace AppBackend.Double

/-! ### Quotients -/

theorem roundQuotient_le (a b : Nat) : roundQuotient a b ≤ a / b + 1 := by
  unfold roundQuotient
  dsimp only
  split <;> omega

theorem le_roundQuotient (a b : Nat) : a / b ≤ roundQuotient a b := by
  unfold roundQuotient
  dsimp only
  split <;> omega

theorem roundQuotient_mono {a b a' b' : Nat} (hb : 0 < b) (hb' : 0 < b') (h : a * b' ≤ a' * b) :
    roundQuotient a b ≤ roundQuotient a' b' := by
  have hfloor : a / b ≤ a' / b' := by
    rw [Nat.le_div_iff_mul_le hb']
    have hle : a / b * b ≤ a := Nat.div_mul_le_self a b
    refine Nat.le_of_mul_le_mul_right ?_ hb
    calc a / b * b' * b = a / b * b * b' := by ring
      _ ≤ a * b' := Nat.mul_le_mul_right b' hle
      _ ≤ a' * b := h
  rcases Nat.lt_or_eq_of_le hfloor with hlt | heq
  · calc roundQuotient a b ≤ a / b + 1 := roundQuotient_le a b
      _ ≤ a' / b' := hlt
      _ ≤ roundQuotient a' b' := le_roundQuotient a' b'
  · -- of two quotients with one floor the larger has the larger rest
    have hrest : a % b * b' ≤ a' % b' * b := by
      have hsplit := Nat.div_add_mod a b
      have hsplit' := Nat.div_add_mod a' b'
      have hcross : (b * (a / b) + a % b) * b' ≤ (b' * (a' / b') + a' % b') * b := by
        rwa [hsplit, hsplit']
      rw [← heq] at hcross
      have hsame : b * (a / b) * b' = b' * (a / b) * b := by ring
      rw [Nat.add_mul, Nat.add_mul, hsame] at hcross
      exact Nat.le_of_add_le_add_left hcross
    have hup (hround : b ≤ 2 * (a % b)) : b' ≤ 2 * (a' % b') := by
      refine Nat.le_of_mul_le_mul_right ?_ hb
      calc b' * b = b * b' := Nat.mul_comm ..
        _ ≤ 2 * (a % b) * b' := Nat.mul_le_mul_right b' hround
        _ = 2 * (a % b * b') := by ring
        _ ≤ 2 * (a' % b' * b) := Nat.mul_le_mul_left 2 hrest
        _ = 2 * (a' % b') * b := by ring
    have hover (hround : b < 2 * (a % b)) : b' < 2 * (a' % b') := by
      refine Nat.lt_of_mul_lt_mul_right (a := b) ?_
      calc b' * b = b * b' := Nat.mul_comm ..
        _ < 2 * (a % b) * b' := Nat.mul_lt_mul_of_pos_right hround hb'
        _ = 2 * (a % b * b') := by ring
        _ ≤ 2 * (a' % b' * b) := Nat.mul_le_mul_left 2 hrest
        _ = 2 * (a' % b') * b := by ring
    unfold roundQuotient
    simp only [heq, Bool.or_eq_true, Bool.and_eq_true, decide_eq_true_eq, beq_iff_eq]
    split <;> split <;> omega

/-! ### Exponents -/

theorem shifted_snd_pos {b : Nat} (hb : 0 < b) (a : Nat) (k : Int) : 0 < (shifted a b k).2 := by
  unfold shifted
  split
  · exact hb
  · exact Nat.mul_pos hb (Nat.pow_pos (by decide))

/-- A shift is a multiplication by a power of two. -/
theorem ratio_shifted (a : Nat) {b : Nat} (hb : 0 < b) (k : Int) :
    ((shifted a b k).1 : ℚ) / (shifted a b k).2 = (a : ℚ) / b * 2 ^ k := by
  have hb : (b : ℚ) ≠ 0 := by positivity
  unfold shifted
  split
  · rename_i hk
    obtain ⟨n, rfl⟩ := Int.eq_ofNat_of_zero_le hk
    simp only [Int.toNat_natCast, Nat.pow_eq, Nat.cast_mul, Nat.cast_pow, Nat.cast_ofNat, zpow_natCast]
    ring
  · rename_i hk
    obtain ⟨n, hn⟩ := Int.eq_ofNat_of_zero_le (show 0 ≤ -k by omega)
    obtain rfl : k = -(n : Int) := by omega
    simp only [neg_neg, Int.toNat_natCast, Nat.pow_eq, Nat.cast_mul, Nat.cast_pow, Nat.cast_ofNat,
      zpow_neg, zpow_natCast]
    field_simp

theorem div_lt_iff {n d : Nat} (hd : 0 < d) (m : Nat) : n / d < m ↔ (n : ℚ) / d < m := by
  have hd' : (0 : ℚ) < d := by exact_mod_cast hd
  rw [Nat.div_lt_iff_lt_mul hd, div_lt_iff₀ hd']
  exact_mod_cast Iff.rfl

theorem ratio_shifted_lt_iff (a : Nat) {b : Nat} (hb : 0 < b) (q : Int) (n : Nat) :
    (shifted a b (-q)).1 / (shifted a b (-q)).2 < 2 ^ n ↔ (a : ℚ) / b < 2 ^ (q + n) := by
  rw [div_lt_iff (shifted_snd_pos hb a (-q)), ratio_shifted a hb, zpow_neg, ← div_eq_mul_inv,
    div_lt_iff₀ (by positivity), Nat.cast_pow, Nat.cast_ofNat, ← zpow_natCast,
    ← zpow_add₀ (by norm_num), Int.add_comm]

/-- A ratio lies between the powers of two that belong to the lengths of its parts. -/
theorem ratio_log2 {a b : Nat} (ha : 0 < a) (hb : 0 < b) :
    (2 : ℚ) ^ ((a.log2 : Int) - b.log2 - 1) < a / b ∧
      (a : ℚ) / b < 2 ^ ((a.log2 : Int) - b.log2 + 1) := by
  have hb' : (0 : ℚ) < b := by exact_mod_cast hb
  have halow : (2 : ℚ) ^ a.log2 ≤ a := by exact_mod_cast Nat.log2_self_le (by omega)
  have hahigh : (a : ℚ) < 2 ^ (a.log2 + 1) := by exact_mod_cast Nat.lt_log2_self
  have hblow : (2 : ℚ) ^ b.log2 ≤ b := by exact_mod_cast Nat.log2_self_le (by omega)
  have hbhigh : (b : ℚ) < 2 ^ (b.log2 + 1) := by exact_mod_cast Nat.lt_log2_self
  have hlow : (2 : ℚ) ^ ((a.log2 : Int) - b.log2 - 1) = 2 ^ a.log2 / 2 ^ (b.log2 + 1) := by
    rw [show (a.log2 : Int) - b.log2 - 1 = (a.log2 : Int) - ((b.log2 + 1 : Nat) : Int) by omega,
      zpow_sub₀ (by norm_num), zpow_natCast, zpow_natCast]
  have hhigh : (2 : ℚ) ^ ((a.log2 : Int) - b.log2 + 1) = 2 ^ (a.log2 + 1) / 2 ^ b.log2 := by
    rw [show (a.log2 : Int) - b.log2 + 1 = ((a.log2 + 1 : Nat) : Int) - (b.log2 : Int) by omega,
      zpow_sub₀ (by norm_num), zpow_natCast, zpow_natCast]
  rw [hlow, hhigh, div_lt_div_iff₀ (by positivity) hb', div_lt_div_iff₀ hb' (by positivity)]
  constructor
  · calc (2 : ℚ) ^ a.log2 * b ≤ a * b := by gcongr
      _ < a * 2 ^ (b.log2 + 1) := by gcongr
  · calc (a : ℚ) * 2 ^ b.log2 ≤ a * b := by gcongr
      _ < 2 ^ (a.log2 + 1) * b := by gcongr

/-- The exponent at which a ratio has 53 bits, but none below the least of the format. -/
theorem exponentOf_spec {a b : Nat} (ha : 0 < a) (hb : 0 < b) :
    -1074 ≤ exponentOf a b ∧ (a : ℚ) / b < 2 ^ (exponentOf a b + 53) ∧
      (exponentOf a b = -1074 ∨ (2 : ℚ) ^ (exponentOf a b + 52) ≤ (a : ℚ) / b) := by
  obtain ⟨hlow, hhigh⟩ := ratio_log2 ha hb
  have hmono {p q : Int} (h : p ≤ q) : (2 : ℚ) ^ p ≤ 2 ^ q := zpow_le_zpow_right₀ (by norm_num) h
  obtain ⟨q, hbits, hdef⟩ : ∃ q : Int, ((a : ℚ) / b < 2 ^ (q + 53) ∧ (2 : ℚ) ^ (q + 52) ≤ a / b) ∧
      exponentOf a b = max q (-1074) := by
    let q : Int := (a.log2 : Int) - (b.log2 : Int) - 52
    have hiff := ratio_shifted_lt_iff a hb q 52
    by_cases h : (shifted a b (-q)).1 / (shifted a b (-q)).2 < Nat.pow 2 52
    · refine ⟨q - 1, ⟨?_, ?_⟩, by simp only [exponentOf, q] at h ⊢; rw [if_pos h]⟩
      · have hr := hiff.1 h
        rwa [show q - 1 + 53 = q + (52 : Nat) by omega]
      · rw [show q - 1 + 52 = (a.log2 : Int) - b.log2 - 1 by omega]
        exact hlow.le
    · refine ⟨q, ⟨?_, ?_⟩, by simp only [exponentOf, q] at h ⊢; rw [if_neg h]⟩
      · rwa [show q + 53 = (a.log2 : Int) - b.log2 + 1 by omega]
      · exact not_lt.1 fun hr => h (hiff.2 hr)
  rw [hdef]
  rcases le_total (-1074) q with h | h
  · rw [max_eq_left h]
    exact ⟨h, hbits.1, Or.inr hbits.2⟩
  · rw [max_eq_right h]
    exact ⟨le_refl _, lt_of_lt_of_le hbits.1 (hmono (by omega)), Or.inl rfl⟩

theorem exponentOf_mono {a b a' b' : Nat} (ha : 0 < a) (hb : 0 < b) (ha' : 0 < a') (hb' : 0 < b')
    (h : (a : ℚ) / b ≤ a' / b') : exponentOf a b ≤ exponentOf a' b' := by
  obtain ⟨-, -, hleast | hlow⟩ := exponentOf_spec ha hb
  · rw [hleast]
    exact (exponentOf_spec ha' hb').1
  · obtain ⟨-, hhigh, -⟩ := exponentOf_spec ha' hb'
    have hlt : (2 : ℚ) ^ (exponentOf a b + 52) < 2 ^ (exponentOf a' b' + 53) :=
      lt_of_le_of_lt (hlow.trans h) hhigh
    have := (zpow_lt_zpow_iff_right₀ (by norm_num)).1 hlt
    omega

/-! ### Codes -/

/-- The code that a ratio is rounded to, be it in the format or not. -/
def codeOf (a b : Nat) : Nat :=
  let q := exponentOf a b
  let (n, d) := shifted a b (-q)
  (q + 1074).toNat * Nat.pow 2 52 + roundQuotient n d

theorem ofRatio?_eq (negative : Bool) (a b : Nat) :
    ofRatio? negative a b =
      if a = 0 then some ⟨negative, 0, by decide⟩
      else if h : codeOf a b < codeLimit then some ⟨negative, codeOf a b, h⟩ else none := rfl

/-- What a ratio is rounded to with its exponent: 53 bits, or fewer at the least exponent. -/
theorem rounded_spec {a b : Nat} (ha : 0 < a) (hb : 0 < b) :
    let scaled := shifted a b (-exponentOf a b)
    roundQuotient scaled.1 scaled.2 ≤ 2 ^ 53 ∧
      (exponentOf a b = -1074 ∨ 2 ^ 52 ≤ roundQuotient scaled.1 scaled.2) := by
  obtain ⟨-, hhigh, hlow⟩ := exponentOf_spec ha hb
  have hfloor := (ratio_shifted_lt_iff a hb (exponentOf a b) 53).2 hhigh
  refine ⟨(roundQuotient_le _ _).trans hfloor, hlow.imp_right fun h => ?_⟩
  have hnot := mt (ratio_shifted_lt_iff a hb (exponentOf a b) 52).1 (not_lt.2 h)
  exact (not_lt.1 hnot).trans (le_roundQuotient _ _)

theorem codeOf_mono {a b a' b' : Nat} (ha : 0 < a) (hb : 0 < b) (ha' : 0 < a') (hb' : 0 < b')
    (h : (a : ℚ) / b ≤ a' / b') : codeOf a b ≤ codeOf a' b' := by
  have hq := exponentOf_mono ha hb ha' hb' h
  have hleast := (exponentOf_spec ha hb).1
  obtain ⟨hround, -⟩ := rounded_spec ha hb
  obtain ⟨-, hround'⟩ := rounded_spec ha' hb'
  simp only [codeOf, Nat.pow_eq]
  -- one step of the exponent outweighs all significands; with equal exponents the rounding decides
  rcases Int.lt_or_eq_of_le hq with hlt | heq
  · have hbits := hround'.resolve_left (by omega)
    have hsteps : (exponentOf a b + 1074).toNat + 1 ≤ (exponentOf a' b' + 1074).toNat := by omega
    have hmul := Nat.mul_le_mul_right (2 ^ 52) hsteps
    omega
  · rw [heq]
    refine Nat.add_le_add_left (roundQuotient_mono (shifted_snd_pos hb _ _)
      (shifted_snd_pos hb' _ _) ?_) _
    have hd : (0 : ℚ) < (shifted a b (-exponentOf a' b')).2 := by
      exact_mod_cast shifted_snd_pos hb _ _
    have hd' : (0 : ℚ) < (shifted a' b' (-exponentOf a' b')).2 := by
      exact_mod_cast shifted_snd_pos hb' _ _
    have hratio : ((shifted a b (-exponentOf a' b')).1 : ℚ) / (shifted a b (-exponentOf a' b')).2
        ≤ (shifted a' b' (-exponentOf a' b')).1 / (shifted a' b' (-exponentOf a' b')).2 := by
      rw [ratio_shifted a hb, ratio_shifted a' hb']
      gcongr
    rw [div_le_div_iff₀ hd hd'] at hratio
    exact_mod_cast hratio

theorem ofRatio?_of_le {s s' : Bool} {a b a' b' : Nat} (hb : 0 < b) (hb' : 0 < b')
    (h : (a : ℚ) / b ≤ a' / b') {y' : Double} (hy' : ofRatio? s' a' b' = some y') :
    ∃ y, ofRatio? s a b = some y ∧ y.code ≤ y'.code := by
  rw [ofRatio?_eq] at hy' ⊢
  by_cases ha : a = 0
  · exact ⟨_, if_pos ha, Nat.zero_le _⟩
  have ha' : a' ≠ 0 := by
    rintro rfl
    have hpos : (0 : ℚ) < a / b := by
      have : (0 : ℚ) < a := by exact_mod_cast Nat.pos_of_ne_zero ha
      have : (0 : ℚ) < b := by exact_mod_cast hb
      positivity
    rw [Nat.cast_zero, zero_div] at h
    linarith
  rw [if_neg ha'] at hy'
  rw [if_neg ha]
  split at hy'
  · rename_i hfits
    have hle := codeOf_mono (Nat.pos_of_ne_zero ha) hb (Nat.pos_of_ne_zero ha') hb' h
    rw [← Option.some.inj hy']
    exact ⟨_, dif_pos (lt_of_le_of_lt hle hfits), hle⟩
  · cases hy'

/-! ### Magnitudes -/

def magnitude (x : Double) : ℚ := x.parts.1 * 2 ^ x.parts.2

/-- The parts of a number and its code: a step of the exponent is as much as the hidden bit. -/
theorem parts_spec (x : Double) :
    ∃ m e : Nat, x.parts = (m, (e : Int) - 1074) ∧ x.code = e * 2 ^ 52 + m ∧ m < 2 ^ 53 ∧
      (e = 0 ∨ 2 ^ 52 ≤ m) := by
  have hsplit : 2 ^ 52 * (x.code / 2 ^ 52) + x.code % 2 ^ 52 = x.code := Nat.div_add_mod ..
  have hrest : x.code % 2 ^ 52 < 2 ^ 52 := Nat.mod_lt _ (by decide)
  by_cases h : x.code / 2 ^ 52 = 0
  · have hparts : x.parts = (x.code % 2 ^ 52, -1074) := if_pos h
    exact ⟨x.code % 2 ^ 52, 0, hparts, by omega, by omega, Or.inl rfl⟩
  · refine ⟨2 ^ 52 + x.code % 2 ^ 52, x.code / 2 ^ 52 - 1, ?_, by omega, by omega,
      Or.inr (by omega)⟩
    have hexp : ((x.code / 2 ^ 52 - 1 : Nat) : Int) - 1074
        = ((x.code / 2 ^ 52 : Nat) : Int) - 1075 := by omega
    rw [hexp]
    exact if_neg h

theorem magnitude_mono {x y : Double} (h : x.code ≤ y.code) : x.magnitude ≤ y.magnitude := by
  obtain ⟨m, e, hparts, hcode, hm, hlow⟩ := x.parts_spec
  obtain ⟨m', e', hparts', hcode', hm', hlow'⟩ := y.parts_spec
  rw [magnitude, magnitude, hparts, hparts']
  -- the code orders by exponents first, as a significand takes less than one step of them
  have he : e ≤ e' := by
    rcases hlow with rfl | hlow
    · exact Nat.zero_le _
    · omega
  rcases Nat.lt_or_eq_of_le he with hlt | rfl
  · have hlow' : (2 : ℚ) ^ 52 ≤ m' := by
      exact_mod_cast hlow'.resolve_left (by omega)
    have hm : (m : ℚ) ≤ 2 ^ 53 := by exact_mod_cast hm.le
    calc (m : ℚ) * 2 ^ ((e : Int) - 1074) ≤ 2 ^ 53 * 2 ^ ((e : Int) - 1074) := by gcongr
      _ = 2 ^ 52 * 2 ^ ((e : Int) + 1 - 1074) := by
        rw [show (e : Int) + 1 - 1074 = (e : Int) - 1074 + 1 by omega,
          zpow_add₀ (by norm_num : (2 : ℚ) ≠ 0)]
        ring
      _ ≤ 2 ^ 52 * 2 ^ ((e' : Int) - 1074) := by
        gcongr
        · norm_num
        · omega
      _ ≤ m' * 2 ^ ((e' : Int) - 1074) := by gcongr
  · have hm : (m : ℚ) ≤ m' := by exact_mod_cast (show m ≤ m' by omega)
    dsimp only
    gcongr

theorem magnitude_nonneg (x : Double) : 0 ≤ x.magnitude := by
  unfold magnitude
  positivity

/-- What is rounded in a product is the product of the magnitudes. -/
theorem mul?_eq (x y : Double) :
    ∃ a b : Nat, 0 < b ∧ (a : ℚ) / b = x.magnitude * y.magnitude ∧
      x.mul? y = ofRatio? (x.negative != y.negative) a b := by
  let scaled := shifted (x.parts.1 * y.parts.1) 1 (x.parts.2 + y.parts.2)
  refine ⟨scaled.1, scaled.2, shifted_snd_pos Nat.one_pos _ _, ?_, rfl⟩
  rw [ratio_shifted _ Nat.one_pos, zpow_add₀ (by norm_num), magnitude, magnitude]
  push_cast
  ring

theorem div?_eq (x : Double) {y : Double} (hy : y.parts.1 ≠ 0) :
    ∃ a b : Nat, 0 < b ∧ (a : ℚ) / b = x.magnitude / y.magnitude ∧
      x.div? y = ofRatio? (x.negative != y.negative) a b := by
  have hpos : 0 < y.parts.1 := Nat.pos_of_ne_zero hy
  let scaled := shifted x.parts.1 y.parts.1 (x.parts.2 - y.parts.2)
  refine ⟨scaled.1, scaled.2, shifted_snd_pos hpos _ _, ?_, rfl⟩
  rw [ratio_shifted _ hpos, zpow_sub₀ (by norm_num), magnitude, magnitude]
  have : (y.parts.1 : ℚ) ≠ 0 := by exact_mod_cast hy
  field_simp

theorem mul?_of_le {x y x' y' z' : Double} (hx : x.code ≤ x'.code) (hy : y.code ≤ y'.code)
    (h : x'.mul? y' = some z') : ∃ z, x.mul? y = some z ∧ z.code ≤ z'.code := by
  obtain ⟨a, b, hb, hratio, heq⟩ := mul?_eq x y
  obtain ⟨a', b', hb', hratio', heq'⟩ := mul?_eq x' y'
  rw [heq'] at h
  rw [heq]
  refine ofRatio?_of_le hb hb' ?_ h
  rw [hratio, hratio']
  exact mul_le_mul (magnitude_mono hx) (magnitude_mono hy) y.magnitude_nonneg x'.magnitude_nonneg

/-! ### Decimal scaling -/

theorem ofNat?_of_le {m n : Nat} (h : m ≤ n) {y : Double} (hy : ofNat? n = some y) :
    ∃ x, ofNat? m = some x ∧ x.code ≤ y.code := by
  refine ofRatio?_of_le Nat.one_pos Nat.one_pos ?_ hy
  gcongr

theorem isZero_of_code_le {x y : Double} (h : x.code ≤ y.code) (hy : y.isZero = true) :
    x.isZero = true := by
  simp only [isZero, beq_iff_eq] at hy ⊢
  omega

/-- A decimal with an exponent that is not negative fits the format if one with more digits does. -/
theorem isSome_ofDecimal?_of_le {m n e : Nat} (h : m ≤ n)
    (hn : (ofDecimal? n e).isSome = true) : (ofDecimal? m e).isSome = true := by
  obtain ⟨z, hz⟩ := Option.isSome_iff_exists.1 hn
  obtain ⟨y, hy, hscale⟩ := Option.bind_eq_some_iff.1 hz
  obtain ⟨x, hx, hle⟩ := ofNat?_of_le h hy
  rw [ofDecimal?, hx, Option.bind_some, scale?]
  rw [scale?] at hscale
  split
  · rfl
  · rename_i hzero
    rw [if_neg fun hy => hzero (isZero_of_code_le hle hy)] at hscale
    split at hscale
    · cases hscale
    · rename_i hexp
      rw [if_neg hexp, if_pos (Int.natCast_nonneg e)]
      rw [if_pos (Int.natCast_nonneg e)] at hscale
      obtain ⟨p, hp, hmul⟩ := Option.bind_eq_some_iff.1 hscale
      obtain ⟨w, hw, -⟩ := mul?_of_le hle (Nat.le_refl p.code) hmul
      rw [hp, Option.bind_some, hw]
      rfl

/-- The first power of two that is no significand. -/
def top : Double := ⟨false, 1087 * 2 ^ 52, by decide⟩

theorem magnitude_top : top.magnitude = 2 ^ 64 := by
  have hparts : top.parts = (2 ^ 52, 12) := by decide +kernel
  rw [magnitude, hparts]
  norm_num

theorem exists_powTen {k : Nat} (hk : k ≤ 308) : ∃ p, powTen? k = some p ∧ 1 ≤ p.magnitude := by
  have hmost : ∃ y, powTen? 308 = some y := by
    rw [← Option.isSome_iff_exists]
    decide +kernel
  have hmono {m n : Nat} (h : m ≤ n) : Nat.pow 10 m ≤ Nat.pow 10 n :=
    Nat.pow_le_pow_right (by decide) h
  obtain ⟨y, hy⟩ := hmost
  obtain ⟨p, hp, -⟩ := ofNat?_of_le (hmono hk) hy
  obtain ⟨one, hone, hle⟩ := ofNat?_of_le (Nat.one_le_pow k 10 (by decide)) hp
  refine ⟨p, hp, ?_⟩
  have hvalue : ofNat? 1 = some ⟨false, 1023 * 2 ^ 52, by decide⟩ := by decide +kernel
  have hparts : one.parts = (2 ^ 52, -52) := by
    rw [← Option.some.inj (hvalue.symm.trans hone)]
    decide +kernel
  have hmagnitude : one.magnitude = 1 := by
    rw [magnitude, hparts]
    norm_num
  exact hmagnitude ▸ magnitude_mono hle

/-- A division by a number that is at least one keeps what is in range there. -/
theorem exists_div?_of_le {x p : Double} (hx : x.code ≤ top.code) (hp : 1 ≤ p.magnitude) :
    ∃ z, x.div? p = some z ∧ z.code ≤ top.code := by
  have hparts : p.parts.1 ≠ 0 := by
    intro hzero
    rw [magnitude, hzero, Nat.cast_zero, zero_mul] at hp
    linarith
  obtain ⟨a, b, hb, hratio, heq⟩ := div?_eq x hparts
  rw [heq]
  have htop : ofRatio? false (2 ^ 64) 1 = some top := by decide +kernel
  refine ofRatio?_of_le hb Nat.one_pos ?_ htop
  have hle : x.magnitude / p.magnitude ≤ x.magnitude := div_le_self x.magnitude_nonneg hp
  have hx := magnitude_mono hx
  rw [magnitude_top] at hx
  rw [hratio, Nat.cast_pow, Nat.cast_one, div_one]
  exact hle.trans hx

theorem exists_lower?_of_le {x : Double} (hx : x.code ≤ top.code) (k : Nat) :
    ∃ z, x.lower? k = some z ∧ z.code ≤ top.code := by
  induction k generalizing x with
  | zero => exact ⟨x, rfl, hx⟩
  | succ k ih =>
    rw [lower?]
    split
    · exact ⟨x, rfl, hx⟩
    · obtain ⟨p, hp, hone⟩ := exists_powTen (Nat.le_refl 308)
      obtain ⟨y, hy, hle⟩ := exists_div?_of_le hx hone
      rw [hp, Option.bind_some, hy, Option.bind_some]
      exact ih hle

theorem isSome_ofDecimal?_of_nonpos {m : Nat} (hm : m ≤ 2 ^ 64) {e : Int} (he : e ≤ 0) :
    (ofDecimal? m e).isSome = true := by
  have htop : ofNat? (2 ^ 64) = some top := by decide +kernel
  obtain ⟨x, hx, hle⟩ := ofNat?_of_le hm htop
  rw [ofDecimal?, hx, Option.bind_some, scale?]
  split
  · rfl
  rw [if_neg (by omega)]
  split
  · have hzero : (top.scale? 0).isSome = true := by decide +kernel
    obtain rfl : e = 0 := by omega
    obtain ⟨z, hz⟩ := Option.isSome_iff_exists.1 hzero
    have hproduct : (powTen? 0).bind top.mul? = some z := hz
    obtain ⟨p, hp, hmul⟩ := Option.bind_eq_some_iff.1 hproduct
    obtain ⟨w, hw, -⟩ := mul?_of_le hle (Nat.le_refl p.code) hmul
    rw [Int.toNat_zero, hp, Option.bind_some, hw]
    rfl
  · -- divisions by 10 ^ 308 first, then one by what is left of the power
    obtain ⟨y, hy, hyle⟩ := exists_lower?_of_le hle (((-e).toNat - 1) / 308)
    obtain ⟨p, hp, hone⟩ :=
      exists_powTen (k := (-e).toNat - 308 * (((-e).toNat - 1) / 308)) (by omega)
    obtain ⟨z, hz, -⟩ := exists_div?_of_le hyle hone
    dsimp only
    rw [hy, Option.bind_some, hp, Option.bind_some, hz]
    rfl

end AppBackend.Double
