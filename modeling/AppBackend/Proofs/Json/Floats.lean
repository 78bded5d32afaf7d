import AppBackend.Proofs.Decimal.Shortest
import AppBackend.Proofs.Json.Numbers

/-!
# Binary64 numbers read back

What is written for a binary64 number is the text of a literal that has a binary64 value again. The
reader scales in steps that round, so that some decimals just below the largest number are too large
for it; the shortest decimals are none of them. Main statement: `exists_literal_of_float`.
-/

namespace AppBackend

/-! ### Decimals that fit -/

namespace Double

theorem upper_le {x : Double} {n : Nat} {q : Int} (hn : x.parts.1 ≤ n) (hq : x.parts.2 ≤ q) :
    x.upper ≤ (n + 1 / 2) * 2 ^ q := by
  have hn' : (x.parts.1 : ℚ) ≤ n := by exact_mod_cast hn
  have hpow : (2 : ℚ) ^ x.parts.2 ≤ 2 ^ q := zpow_le_zpow_right₀ (by norm_num) hq
  exact mul_le_mul (by linarith) hpow (by positivity) (by positivity)

/-- Three quarters of the last binary place below a power of two. -/
def below (k : Nat) : Nat := (Nat.pow 2 54 - 3) * Nat.pow 2 k

theorem cast_below (k : Nat) : (below k : ℚ) = 18014398509481981 * 2 ^ (k : Int) := by
  have hpow : ((Nat.pow 2 k : Nat) : ℚ) = 2 ^ (k : Int) := by
    rw [Nat.pow_eq, Nat.cast_pow, zpow_natCast, Nat.cast_ofNat]
  rw [below, Nat.cast_mul, hpow]
  rfl

/-- The end of the interval of the number below the largest. -/
def nearTop : Nat := below 970

theorem upper_le_nearTop {x : Double} (h : x.code + 1 < codeLimit) : x.upper ≤ nearTop := by
  obtain ⟨m, e, hparts, hcode, hm, hlow⟩ := x.parts_spec
  have hcode' : e * 2 ^ 52 + m + 1 < 2047 * 2 ^ 52 := by
    rw [hcode] at h
    exact h
  have hbound {n : Nat} {q : Int} (hn : m ≤ n) (hq : (e : Int) - 1074 ≤ q) :
      x.upper ≤ (n + 1 / 2) * 2 ^ q := upper_le (by rw [hparts]; exact hn) (by rw [hparts]; exact hq)
  have hpos : (0 : ℚ) < 2 ^ ((970 : Nat) : Int) := zpow_pos (by norm_num) _
  -- the last binade lacks its largest significand, all others are half as high
  rw [nearTop, cast_below]
  rcases Nat.lt_or_ge e 2045 with he | he
  · have hle := hbound (n := 2 ^ 53 - 1) (q := ((970 : Nat) : Int)) (by omega) (by omega)
    generalize (2 : ℚ) ^ ((970 : Nat) : Int) = p at hle hpos ⊢
    norm_num at hle
    linarith
  · have hle := hbound (n := 2 ^ 53 - 2) (q := ((970 : Nat) : Int) + 1) (by omega) (by omega)
    rw [zpow_add₀ (by norm_num : (2 : ℚ) ≠ 0)] at hle
    generalize (2 : ℚ) ^ ((970 : Nat) : Int) = p at hle hpos ⊢
    norm_num at hle
    linarith

theorem lt_of_pow_le {e k n : Nat} (hn : n < Nat.pow 10 k) (h : Nat.pow 10 e ≤ n) : e < k := by
  refine Nat.lt_of_not_le fun hle => ?_
  have hmono : Nat.pow 10 k ≤ Nat.pow 10 e := Nat.pow_le_pow_right (by decide) hle
  omega

theorem lt_of_pow_le_nearTop {e : Nat} (h : Nat.pow 10 e ≤ nearTop) : e < 309 := by
  obtain ⟨k, hk, hlimit⟩ : ∃ k < 310, nearTop < Nat.pow 10 k := by decide +kernel
  have hlt := lt_of_pow_le hlimit h
  omega

/-- For each exponent the largest digits that are few and do not lie beyond. -/
theorem fits_of_exponent : ∀ e < 309,
    (ofDecimal? (min (10 ^ 17 + 1) (nearTop / Nat.pow 10 e)) (e : Nat)).isSome = true := by
  decide +kernel

/-- A decimal of few digits fits the format if it does not lie beyond. -/
theorem isSome_ofDecimal?_of_le_nearTop {m e : Nat} (hm : m ≤ 10 ^ 17 + 1)
    (h : m * 10 ^ e ≤ nearTop) : (ofDecimal? m e).isSome = true := by
  rcases Nat.eq_zero_or_pos m with rfl | hpos
  · rfl
  have he : e < 309 := lt_of_pow_le_nearTop ((Nat.le_mul_of_pos_left _ hpos).trans h)
  refine isSome_ofDecimal?_of_le (Nat.le_min.2 ⟨hm, ?_⟩) (fits_of_exponent e he)
  exact (Nat.le_div_iff_mul_le (Nat.pow_pos (by decide))).2 h

end Double

namespace Json

/-! ### Digits taken into a significand -/

theorem value_lt {ds : List Char} (h : AreDigits ds) : Numeral.value ds < 10 ^ ds.length := by
  induction ds with
  | nil => exact Nat.one_pos
  | cons d ds ih =>
    have hd : Numeral.digitValue d ≤ 9 := by
      obtain ⟨-, hhigh⟩ := Numeral.toNat_of_isDigit (h d (List.mem_cons_self ..))
      rw [Numeral.digitValue]
      have : '0'.toNat = 48 := rfl
      omega
    have hrest := ih h.tail
    have hstep := Nat.mul_le_mul_right (10 ^ ds.length) hd
    rw [Numeral.value_cons, List.length_cons, Nat.pow_succ]
    omega

namespace Literal

theorem takeWhole_of_le (m : Nat) (ds : List Char)
    (h : m * 10 ^ ds.length + Numeral.value ds ≤ significandMax) :
    takeWhole m ds = (m * 10 ^ ds.length + Numeral.value ds, 0) := by
  induction ds generalizing m with
  | nil => simp [takeWhole, Numeral.value]
  | cons d ds ih =>
    have hvalue : m * 10 ^ (d :: ds).length + Numeral.value (d :: ds)
        = (m * 10 + Numeral.digitValue d) * 10 ^ ds.length + Numeral.value ds := by
      rw [Numeral.value_cons, List.length_cons, Nat.pow_succ]
      ring
    rw [hvalue] at h ⊢
    have hfits : m * 10 + Numeral.digitValue d ≤ significandMax :=
      (Nat.le_mul_of_pos_right _ (Nat.pow_pos (by decide))).trans ((Nat.le_add_right ..).trans h)
    rw [takeWhole]
    exact (if_pos hfits).trans (ih _ h)

theorem takeFraction_of_le (m : Nat) (e : Int) (ds : List Char)
    (h : m * 10 ^ ds.length + Numeral.value ds ≤ significandMax) :
    takeFraction m e ds = (m * 10 ^ ds.length + Numeral.value ds, e - ds.length) := by
  induction ds generalizing m e with
  | nil => simp [takeFraction, Numeral.value]
  | cons d ds ih =>
    have hvalue : m * 10 ^ (d :: ds).length + Numeral.value (d :: ds)
        = (m * 10 + Numeral.digitValue d) * 10 ^ ds.length + Numeral.value ds := by
      rw [Numeral.value_cons, List.length_cons, Nat.pow_succ]
      ring
    rw [hvalue] at h ⊢
    have hfits : m * 10 + Numeral.digitValue d ≤ significandMax :=
      (Nat.le_mul_of_pos_right _ (Nat.pow_pos (by decide))).trans ((Nat.le_add_right ..).trans h)
    have hlength : e - ((d :: ds).length : Int) = e - 1 - ds.length := by
      rw [List.length_cons]
      omega
    rw [takeFraction, hlength]
    exact (if_pos hfits).trans (ih _ _ h)

theorem takeFraction_le {m : Nat} (hm : m ≤ significandMax) (e : Int) (ds : List Char) :
    (takeFraction m e ds).1 ≤ significandMax ∧ (takeFraction m e ds).2 ≤ e := by
  induction ds generalizing m e with
  | nil => exact ⟨hm, Int.le_refl e⟩
  | cons d ds ih =>
    unfold takeFraction
    dsimp only
    split
    · rename_i hfits
      obtain ⟨hle, hexp⟩ := ih hfits (e - 1)
      exact ⟨hle, by omega⟩
    · exact ⟨hm, Int.le_refl e⟩

/-! ### Literals with a binary64 value -/

/-- A literal that is spelled as no whole number is, and does not stand for too large a number. -/
structure IsFloat (l : Literal) : Prop where
  spelled : (l.fraction.isNone && l.exponent.isNone) = false
  fits : l.float?.isSome = true

theorem IsFloat.exists_value {l : Literal} (h : l.IsFloat) : ∃ x, l.value? = some (.float x) := by
  obtain ⟨x, hx⟩ := Option.isSome_iff_exists.1 h.fits
  refine ⟨x, ?_⟩
  simp [value?, h.spelled, hx]

theorem IsFloat.withSign {l : Literal} (h : l.IsFloat) (negative : Bool) :
    ({ l with negative } : Literal).IsFloat := by
  refine ⟨h.spelled, ?_⟩
  have hfits := h.fits
  unfold float? at hfits ⊢
  dsimp only at hfits ⊢
  cases hsign : l.negative <;> cases negative <;> simpa [hsign] using hfits

end Literal

/-- Up to nineteen digits before the point are all taken, so that the exponent is not positive. -/
theorem isFloat_pointLiteral {whole fraction : List Char} (hw : AreDigits whole)
    (hlength : whole.length ≤ 19) : (pointLiteral whole fraction).IsFloat := by
  refine ⟨rfl, ?_⟩
  have hvalue : Numeral.value whole ≤ Literal.significandMax := by
    have hlt : Numeral.value whole < 10 ^ 19 :=
      (value_lt hw).trans_le (Nat.pow_le_pow_right (by decide) hlength)
    have hmax : 10 ^ 19 ≤ Literal.significandMax := by decide
    omega
  have hwhole : Literal.takeWhole 0 whole = (Numeral.value whole, 0) := by
    have htake := Literal.takeWhole_of_le 0 whole (by simpa using hvalue)
    simpa using htake
  obtain ⟨hmost, hexponent⟩ := Literal.takeFraction_le hvalue 0 fraction
  have hmost : (Literal.takeFraction (Numeral.value whole) 0 fraction).1 ≤ 2 ^ 64 :=
    hmost.trans (by decide)
  have hfits := Double.isSome_ofDecimal?_of_nonpos hmost hexponent
  simp only [Literal.float?, pointLiteral, hwhole, Option.getD_some]
  exact hfits

/-- Few digits with an exponent: those below one always fit, the others if they do not lie beyond. -/
theorem isFloat_exponentLiteral {d : Char} {rest : List Char} {exponent : Int}
    (hm : Numeral.value (d :: rest) ≤ 10 ^ 17 + 1)
    (hle : 0 < exponent - rest.length →
      (Numeral.value (d :: rest) : ℚ) * 10 ^ (exponent - rest.length) ≤ Double.nearTop)
    (hsmall : exponent < 0x80000000) : (exponentLiteral d rest exponent).IsFloat := by
  refine ⟨by simp [exponentLiteral], ?_⟩
  have hmax : 10 ^ 17 + 1 ≤ Literal.significandMax := by decide
  have hmax' : 10 ^ 17 + 1 ≤ 2 ^ 64 := by decide
  have hsplit := Numeral.value_cons d rest
  have hfirst : Literal.takeWhole 0 [d] = (Numeral.digitValue d, 0) := by
    have hone : Numeral.value [d] = Numeral.digitValue d := by simp [Numeral.value]
    have hd : Numeral.digitValue d ≤ Numeral.digitValue d * 10 ^ rest.length :=
      Nat.le_mul_of_pos_right _ (Nat.pow_pos (by decide))
    have htake := Literal.takeWhole_of_le 0 [d] (by rw [hone]; omega)
    simpa [hone] using htake
  have hrest : Literal.takeFraction (Numeral.digitValue d) 0
      ((if rest = [] then none else some rest : Option (List Char)).getD [])
        = (Numeral.value (d :: rest), -(rest.length : Int)) := by
    have hget : (if rest = [] then none else some rest : Option (List Char)).getD [] = rest := by
      split
      · rename_i hnil
        exact hnil.symm
      · rfl
    have htake := Literal.takeFraction_of_le (Numeral.digitValue d) 0 rest (by omega)
    rw [hget, htake, hsplit, Int.zero_sub]
  have hexponent : Numeral.value (Numeral.write exponent.natAbs) = exponent.natAbs :=
    Numeral.value_write _
  have hnonpos {e : Int} (he : e ≤ 0) :
      (Double.ofDecimal? (Numeral.value (d :: rest)) e).isSome = true :=
    Double.isSome_ofDecimal?_of_nonpos (by omega) he
  simp only [Literal.float?, exponentLiteral, hfirst, hrest, hexponent, Bool.false_eq_true, if_false,
    decide_eq_true_eq]
  rcases Int.lt_or_le exponent 0 with hneg | hpos
  · by_cases hbits : exponent.natAbs < 0x80000000
    · rw [if_pos hbits, if_pos hneg]
      exact hnonpos (by omega)
    · rw [if_neg hbits, if_pos (Or.inl hneg)]
      rfl
  · have hcast : -(rest.length : Int) + (exponent.natAbs : Int) = exponent - rest.length := by omega
    rw [if_pos (by omega), if_neg (by omega), hcast]
    rcases Int.lt_or_le 0 (exponent - rest.length) with hover | hunder
    · obtain ⟨e, he⟩ := Int.eq_ofNat_of_zero_le hover.le
      have hbound := hle hover
      rw [he] at hbound ⊢
      rw [zpow_natCast] at hbound
      exact Double.isSome_ofDecimal?_of_le_nearTop hm (by exact_mod_cast hbound)
    · exact hnonpos hunder

/-! ### Digits less the zeros at their end -/

open Decimal (Shortest)

theorem exists_zeros (ds : List Char) :
    ∃ n, ds = Shortest.stripZeros ds ++ List.replicate n '0' := by
  have hsplit := List.takeWhile_append_dropWhile (p := (· == '0')) (l := ds.reverse)
  have hzeros : ∀ c ∈ ds.reverse.takeWhile (· == '0'), c = '0' := fun c hc => by
    simpa using List.all_eq_true.1 List.all_takeWhile c hc
  refine ⟨(ds.reverse.takeWhile (· == '0')).length, ?_⟩
  rw [← List.reverse_replicate, ← List.eq_replicate_of_mem hzeros, Shortest.stripZeros,
    ← List.reverse_append, hsplit, List.reverse_reverse]

theorem Leading.stripZeros {ds : List Char} (h : Leading ds) :
    Leading (Shortest.stripZeros ds) := by
  obtain ⟨n, hn⟩ := exists_zeros ds
  obtain ⟨d, rest, rfl, hd⟩ := h
  cases hs : Shortest.stripZeros (d :: rest) with
  | nil =>
    rw [hs, List.nil_append] at hn
    exact absurd (List.eq_of_mem_replicate (hn ▸ List.mem_cons_self ..)) hd
  | cons c cs =>
    rw [hs, List.cons_append] at hn
    exact ⟨c, cs, rfl, by rw [← (List.cons.inj hn).1]; exact hd⟩

/-! ### Magnitudes as they are written -/

def magnitudeText (s : Shortest) : List Char :=
  if -5 ≤ s.exponent ∧ s.exponent ≤ 15 then positional s.digits (s.exponent + 1)
  else withExponent s.digits s.exponent

/-- Digits with an exponent are the text of a literal; it has a binary64 value if the digits are few
and do not lie beyond. -/
theorem exists_literal_of_digits {s : Shortest} (hd : AreDigits s.digits) (hl : Leading s.digits)
    (hm : Numeral.value s.digits ≤ 10 ^ 17 + 1)
    (hle : (Numeral.value s.digits : ℚ) * 10 ^ (s.exponent - s.digits.length + 1)
      ≤ Double.nearTop) (hsmall : s.exponent < 0x80000000) :
    ∃ l : Literal, l.Proper ∧ l.negative = false ∧ l.text = magnitudeText s ∧ l.IsFloat := by
  unfold magnitudeText
  split
  · obtain ⟨whole, fraction, hproper, hlength, htext⟩ :=
      exists_pointLiteral_of_positional hd hl (s.exponent + 1)
    exact ⟨_, hproper, rfl, htext, isFloat_pointLiteral hproper.whole (by omega)⟩
  · obtain ⟨d, rest, hdigits, hne⟩ := hl
    rw [hdigits] at hd hm hle ⊢
    have hexponent : s.exponent - ((d :: rest).length : Int) + 1 = s.exponent - rest.length := by
      rw [List.length_cons]
      omega
    rw [hexponent] at hle
    exact ⟨_, proper_exponentLiteral hd hne _, rfl, text_exponentLiteral ..,
      isFloat_exponentLiteral hm (fun _ => hle) hsmall⟩

theorem exists_literal_of_below {x : Double} (h : x.isZero = false)
    (hbelow : x.code + 1 < Double.codeLimit) :
    ∃ l : Literal, l.Proper ∧ l.negative = false ∧
      l.text = magnitudeText (Shortest.ofDouble x) ∧ l.IsFloat := by
  obtain hzero | ⟨c, k, hc, hfew, hle, heq⟩ := Shortest.ofDouble_cases h
  · rw [hzero]
    exact ⟨pointLiteral ['0'] ['0'], proper_pointLiteral (areDigits_zeros 1) (Or.inl rfl)
      (areDigits_zeros 1) (List.cons_ne_nil _ _), rfl, rfl, rfl, by decide +kernel⟩
  obtain ⟨n, hzeros⟩ := exists_zeros (Numeral.write c)
  have hleading := (leading_write hc).stripZeros
  have hlength := congrArg List.length hzeros
  have hvalue := congrArg Numeral.value hzeros
  rw [heq]
  generalize Shortest.stripZeros (Numeral.write c) = ds at hzeros hleading hlength hvalue ⊢
  rw [List.length_append, List.length_replicate] at hlength
  rw [Numeral.value_write, Numeral.value_append, Numeral.value_zeros, List.length_replicate,
    Nat.add_zero] at hvalue
  have hdigits : AreDigits ds := fun d hd =>
    areDigits_write c d (hzeros ▸ List.mem_append_left _ hd)
  -- the zeros at the end move from the digits to the exponent
  have hexponent : k + ((Numeral.write c).length : Int) - 1 - ds.length + 1 = n + k := by omega
  have hsame : (Numeral.value ds : ℚ) * 10 ^ (n + k) = c * 10 ^ k := by
    rw [zpow_add₀ (by norm_num), zpow_natCast, hvalue]
    push_cast
    ring
  have hnear := hle.trans (Double.upper_le_nearTop hbelow)
  have hm : Numeral.value ds ≤ 10 ^ 17 + 1 :=
    (hvalue ▸ Nat.le_mul_of_pos_right _ (Nat.pow_pos (by decide))).trans hfew
  have hlow : k < 309 := by
    refine lt_of_not_ge fun hlarge => ?_
    obtain ⟨e, rfl⟩ := Int.eq_ofNat_of_zero_le (show 0 ≤ k by omega)
    have hone : (1 : ℚ) ≤ c := by exact_mod_cast hc
    rw [zpow_natCast] at hnear
    have hpow : (10 : ℚ) ^ e ≤ Double.nearTop :=
      (le_mul_of_one_le_left (by positivity) hone).trans hnear
    have hlt := Double.lt_of_pow_le_nearTop (e := e) (by exact_mod_cast hpow)
    omega
  have hshort : (Numeral.write c).length ≤ 18 := by
    have hlt : 10 ^ ((Numeral.write c).length - 1) < 10 ^ 18 :=
      ((Numeral.pow_length_write_le hc).trans hfew).trans_lt (by decide)
    have hexp := (Nat.pow_lt_pow_iff_right (by decide)).1 hlt
    omega
  refine exists_literal_of_digits hdigits hleading hm (by rw [hexponent, hsame]; exact hnear) ?_
  dsimp only
  omega

/-- The digits of the largest number. -/
theorem ofDouble_top {x : Double} (h : x.code + 1 = Double.codeLimit) :
    Shortest.ofDouble x = ⟨"17976931348623157".toList, 308⟩ := by
  have hdigits : ∀ negative, Shortest.ofDouble ⟨negative, Double.codeLimit - 1, by decide⟩
      = ⟨"17976931348623157".toList, 308⟩ := by decide +kernel
  obtain ⟨negative, code, hcode⟩ := x
  obtain rfl : code = Double.codeLimit - 1 := by
    dsimp only at h
    omega
  exact hdigits negative

/-- What is written for a binary64 number is the text of a literal that has a binary64 value. -/
theorem exists_literal_of_float (x : Double) :
    ∃ l : Literal, l.Proper ∧ l.text = writeFloat x ∧ l.IsFloat := by
  have hmagnitude : ∃ l : Literal, l.Proper ∧ l.negative = false ∧
      l.text = (if x.isZero then ['0', '.', '0'] else magnitudeText (Shortest.ofDouble x)) ∧
      l.IsFloat := by
    cases h : x.isZero with
    | true =>
      exact ⟨pointLiteral ['0'] ['0'], proper_pointLiteral (areDigits_zeros 1) (Or.inl rfl)
        (areDigits_zeros 1) (List.cons_ne_nil _ _), rfl, rfl, rfl, by decide +kernel⟩
    | false =>
      have hlimit := x.code_lt
      rcases Nat.lt_or_ge (x.code + 1) Double.codeLimit with hbelow | htop
      · exact exists_literal_of_below h hbelow
      · rw [ofDouble_top (Nat.le_antisymm hlimit htop)]
        exact ⟨exponentLiteral '1' "7976931348623157".toList 308,
          proper_exponentLiteral (List.all_eq_true.1 (by decide)) (by decide) 308, rfl,
          text_exponentLiteral .., rfl, by decide +kernel⟩
  obtain ⟨l, hl, hsign, htext, hfloat⟩ := hmagnitude
  have hwrite : writeFloat x = (if x.negative then ['-'] else []) ++ l.text := by
    rw [writeFloat, htext]
    cases x.negative <;> rfl
  refine ⟨{ l with negative := x.negative }, hl.withSign _, ?_, hfloat.withSign _⟩
  rw [hwrite]
  simp [Literal.text, Literal.fractionText, Literal.exponentText, hsign]

end Json
end AppBackend
