import AppBackend.Json.Token
import AppBackend.Json.Writer
import Mathlib.Data.List.TakeWhile

/-!
# Numbers scanned

Every number that is written scans to one token. A literal has digits before the point, perhaps
digits after it, and perhaps an exponent; the scanner reads it to its end, whatever may stand after a
value. Main statements: `scan_literal`, and `text_literalOf` and `exists_pointLiteral_of_positional`,
what is written for a number is the text of a literal.
-/

namespace AppBackend.Json

/-! ### Steps of the scanner -/

/-- What may stand after a value in the text of another. -/
def AfterValue (rest : List Char) : Prop :=
  rest = [] ∨ ∃ c cs, rest = c :: cs ∧ (c = ',' ∨ c = ']' ∨ c = '\x7d')

theorem afterValue_cons {c : Char} (h : c = ',' ∨ c = ']' ∨ c = '\x7d') (cs : List Char) :
    AfterValue (c :: cs) := Or.inr ⟨c, cs, rfl, h⟩

theorem scanFrom_cons (st : Scan) (c : Char) (cs : List Char) :
    scanFrom st ((c :: cs).map some)
      = (scanStep st (some c)).1 ++ scanFrom (scanStep st (some c)).2 (cs.map some) := rfl

theorem scanFrom_of_step {st next : Scan} {c : Char} {ts : List Token}
    (h : scanStep st (some c) = (ts, next)) (cs : List Char) :
    scanFrom st ((c :: cs).map some) = ts ++ scanFrom next (cs.map some) := by
  rw [scanFrom_cons, h]

theorem ne_of_isDigit {c d : Char} (hc : Numeral.isDigit c = true) (hd : Numeral.isDigit d = false) :
    c ≠ d := by
  rintro rfl
  rw [hc] at hd
  exact Bool.noConfusion hd

def firstDigit (negative : Bool) (c : Char) : NumberScan :=
  ⟨if c = '0' then .leadingZero else .whole, negative, [c], [], false, []⟩

theorem scanStart_digit {c : Char} (hc : Numeral.isDigit c = true) :
    scanStart c = ([], .number (firstDigit false c)) := by
  have hspace : isSpace c = false := by
    simp [isSpace, ne_of_isDigit hc (d := ' ') rfl, ne_of_isDigit hc (d := '\n') rfl,
      ne_of_isDigit hc (d := '\t') rfl, ne_of_isDigit hc (d := '\r') rfl]
  have hbegin : NumberScan.begin c
      = some ⟨if c = '0' then .leadingZero else .whole, false, [c], [], false, []⟩ := by
    by_cases h0 : c = '0' <;> simp [NumberScan.begin, ne_of_isDigit hc (d := '-') rfl, h0, hc]
  simp only [scanStart, hspace, Bool.false_eq_true, if_false, hbegin,
    ne_of_isDigit hc (d := '[') rfl, ne_of_isDigit hc (d := ']') rfl,
    ne_of_isDigit hc (d := '\x7b') rfl, ne_of_isDigit hc (d := '\x7d') rfl,
    ne_of_isDigit hc (d := ':') rfl, ne_of_isDigit hc (d := ',') rfl,
    ne_of_isDigit hc (d := '"') rfl, ne_of_isDigit hc (d := 'n') rfl,
    ne_of_isDigit hc (d := 't') rfl, ne_of_isDigit hc (d := 'f') rfl, firstDigit]

theorem scanStep_sign_digit {c : Char} (hc : Numeral.isDigit c = true) :
    scanStep (.number ⟨.sign, true, [], [], false, []⟩) (some c)
      = ([], .number (firstDigit true c)) := by
  by_cases h0 : c = '0' <;> simp [scanStep, NumberScan.step, firstDigit, h0, hc]

theorem scanFrom_more {n m : NumberScan} {c : Char} (h : n.step c = .more m) (cs : List Char) :
    scanFrom (.number n) ((c :: cs).map some) = scanFrom (.number m) (cs.map some) := by
  have hstep : scanStep (.number n) (some c) = ([], .number m) := by
    simp only [scanStep, h]
  exact scanFrom_of_step hstep cs

/-! ### Runs of digits -/

namespace NumberScan

/-- A digit more where the scanner stands among digits. -/
def push (n : NumberScan) (c : Char) : NumberScan :=
  match n.place with
  | .fraction => { n with fraction := c :: n.fraction }
  | .exponent => { n with exponent := c :: n.exponent }
  | _ => { n with whole := c :: n.whole }

theorem place_push (n : NumberScan) (c : Char) : (n.push c).place = n.place := by
  unfold push
  split <;> rfl

/-- Places where any number of digits may come. -/
def amongDigits (p : NumberPlace) : Bool := p == .whole || p == .fraction || p == .exponent

theorem step_digit {n : NumberScan} (hn : amongDigits n.place = true) {c : Char}
    (hc : Numeral.isDigit c = true) : n.step c = .more (n.push c) := by
  have hpoint : c ≠ '.' := ne_of_isDigit hc rfl
  have hmark : ¬ (c = 'e' ∨ c = 'E') := not_or.2 ⟨ne_of_isDigit hc rfl, ne_of_isDigit hc rfl⟩
  cases hp : n.place <;> simp [amongDigits, hp] at hn <;> simp [step, push, hp, hpoint, hmark, hc]

theorem foldl_push_whole {n : NumberScan} (hn : n.place = .whole) (ds : List Char) :
    ds.foldl push n = { n with whole := ds.reverse ++ n.whole } := by
  induction ds generalizing n with
  | nil => rfl
  | cons d ds ih =>
    have hpush : n.push d = { n with whole := d :: n.whole } := by simp [push, hn]
    have hplace : NumberScan.place { n with whole := d :: n.whole } = .whole := hn
    rw [List.foldl_cons, hpush, ih hplace]
    simp

theorem foldl_push_fraction {n : NumberScan} (hn : n.place = .fraction) (ds : List Char) :
    ds.foldl push n = { n with fraction := ds.reverse ++ n.fraction } := by
  induction ds generalizing n with
  | nil => rfl
  | cons d ds ih =>
    have hpush : n.push d = { n with fraction := d :: n.fraction } := by simp [push, hn]
    have hplace : NumberScan.place { n with fraction := d :: n.fraction } = .fraction := hn
    rw [List.foldl_cons, hpush, ih hplace]
    simp

theorem foldl_push_exponent {n : NumberScan} (hn : n.place = .exponent) (ds : List Char) :
    ds.foldl push n = { n with exponent := ds.reverse ++ n.exponent } := by
  induction ds generalizing n with
  | nil => rfl
  | cons d ds ih =>
    have hpush : n.push d = { n with exponent := d :: n.exponent } := by simp [push, hn]
    have hplace : NumberScan.place { n with exponent := d :: n.exponent } = .exponent := hn
    rw [List.foldl_cons, hpush, ih hplace]
    simp

end NumberScan

def AreDigits (ds : List Char) : Prop := ∀ d ∈ ds, Numeral.isDigit d = true

theorem AreDigits.tail {d : Char} {ds : List Char} (h : AreDigits (d :: ds)) : AreDigits ds :=
  fun c hc => h c (List.mem_cons_of_mem _ hc)

theorem scan_digits {n : NumberScan} (hn : NumberScan.amongDigits n.place = true)
    {ds : List Char} (hd : AreDigits ds) (rest : List Char) :
    scanFrom (.number n) ((ds ++ rest).map some)
      = scanFrom (.number (ds.foldl NumberScan.push n)) (rest.map some) := by
  induction ds generalizing n with
  | nil => rfl
  | cons d ds ih =>
    have hstep := NumberScan.step_digit hn (hd d (List.mem_cons_self ..))
    rw [List.cons_append, scanFrom_more hstep, List.foldl_cons]
    refine ih ?_ hd.tail
    rw [NumberScan.place_push]
    exact hn

/-- A number that may end here ends before what may stand after a value. -/
theorem scan_ended {n : NumberScan} {l : Literal} (hn : n.literal? = some l) {rest : List Char}
    (hr : AfterValue rest) :
    scanFrom (.number n) (rest.map some) = .number l :: scanFrom .between (rest.map some) := by
  rcases hr with rfl | ⟨c, cs, rfl, hc⟩
  · simp [scanFrom, scanEnd, hn]
  · have hended : n.step c = .ended := by
      unfold NumberScan.literal? at hn
      cases hp : n.place <;> simp only [hp] at hn <;> first
        | (rcases hc with rfl | rfl | rfl <;> simp [NumberScan.step, hp, Numeral.isDigit]; done)
        | cases hn
    rw [scanFrom_cons, scanFrom_cons]
    simp [scanStep, hended, hn]

/-! ### Literals -/

namespace Literal

def fractionText (l : Literal) : List Char :=
  match l.fraction with
  | none => []
  | some ds => '.' :: ds

def exponentText (l : Literal) : List Char :=
  match l.exponent with
  | none => []
  | some (down, ds) => 'e' :: (if down then '-' else '+') :: ds

/-- The text of a literal, its exponent with a sign. -/
def text (l : Literal) : List Char :=
  (if l.negative then ['-'] else []) ++ (l.whole ++ (l.fractionText ++ l.exponentText))

/-- The digits of a number: some before the point, with no zero in front of others, and some
wherever else digits have to come. -/
structure Proper (l : Literal) : Prop where
  whole : AreDigits l.whole
  begins : l.whole = ['0'] ∨ ∃ d ds, l.whole = d :: ds ∧ d ≠ '0'
  fraction : ∀ ds, l.fraction = some ds → AreDigits ds ∧ ds ≠ []
  exponent : ∀ down ds, l.exponent = some (down, ds) → AreDigits ds ∧ ds ≠ []

end Literal

/-- The exponent of a number, after its point or without one. -/
theorem scan_exponent {l : Literal} (hl : l.Proper) {n : NumberScan}
    (hplace : n.place = .leadingZero ∨ n.place = .whole ∨ n.place = .fraction)
    (hnow : n.literal? = some { l with exponent := none })
    (hn : n.negative = l.negative ∧ n.whole.reverse = l.whole ∧ n.down = false ∧
      (if n.fraction.isEmpty then none else some n.fraction.reverse) = l.fraction)
    {rest : List Char} (hr : AfterValue rest) :
    scanFrom (.number n) ((l.exponentText ++ rest).map some)
      = .number l :: scanFrom .between (rest.map some) := by
  obtain ⟨negative, whole, fraction, exponent⟩ := l
  cases exponent with
  | none => exact scan_ended hnow hr
  | some e =>
    obtain ⟨down, ds⟩ := e
    obtain ⟨hdigits, hne⟩ := hl.exponent down ds rfl
    obtain ⟨d, ds, rfl⟩ := List.exists_cons_of_ne_nil hne
    have hd : Numeral.isDigit d = true := hdigits d (List.mem_cons_self ..)
    have hmark : n.step 'e' = .more { n with place := .mark } := by
      rcases hplace with h | h | h <;> simp [NumberScan.step, h]
    have hsign : NumberScan.step { n with place := .mark } (if down then '-' else '+')
        = .more { n with place := .exponentSign, down } := by
      cases down <;> simp [NumberScan.step, hn.2.2.1]
    have hfirst : NumberScan.step { n with place := .exponentSign, down } d
        = .more { n with place := .exponent, down, exponent := [d] } := by
      simp [NumberScan.step, hd]
    rw [Literal.exponentText, List.cons_append, List.cons_append, List.cons_append,
      scanFrom_more hmark, scanFrom_more hsign, scanFrom_more hfirst,
      scan_digits rfl hdigits.tail, NumberScan.foldl_push_exponent rfl]
    refine scan_ended ?_ hr
    obtain ⟨hnegative, hwhole, -, hfraction⟩ := hn
    simp only [NumberScan.literal?, hnegative, hwhole, hfraction, List.reverse_append,
      List.reverse_reverse, List.reverse_singleton, List.singleton_append]

/-- What stands after the whole part: a fraction, an exponent, both or neither. -/
theorem scan_tail {l : Literal} (hl : l.Proper) {n : NumberScan}
    (hplace : n.place = .leadingZero ∨ n.place = .whole)
    (hn : n.negative = l.negative ∧ n.whole.reverse = l.whole ∧ n.down = false ∧ n.fraction = [])
    {rest : List Char} (hr : AfterValue rest) :
    scanFrom (.number n) ((l.fractionText ++ (l.exponentText ++ rest)).map some)
      = .number l :: scanFrom .between (rest.map some) := by
  obtain ⟨hnegative, hwhole, hdown, hfraction⟩ := hn
  cases hf : l.fraction with
  | none =>
    have hnow : n.literal? = some { l with exponent := none } := by
      rcases hplace with h | h <;> simp [NumberScan.literal?, h, hnegative, hwhole, hf]
    rw [Literal.fractionText, hf]
    exact scan_exponent hl (hplace.imp_right Or.inl) hnow
      ⟨hnegative, hwhole, hdown, by simp [hfraction, hf]⟩ hr
  | some ds =>
    obtain ⟨hdigits, hne⟩ := hl.fraction ds hf
    obtain ⟨d, ds, rfl⟩ := List.exists_cons_of_ne_nil hne
    have hd : Numeral.isDigit d = true := hdigits d (List.mem_cons_self ..)
    have hpoint : n.step '.' = .more { n with place := .point } := by
      rcases hplace with h | h <;> simp [NumberScan.step, h]
    have hfirst : NumberScan.step { n with place := .point } d
        = .more { n with place := .fraction, fraction := [d] } := by
      simp [NumberScan.step, hd]
    simp only [Literal.fractionText, hf, List.cons_append]
    rw [scanFrom_more hpoint, scanFrom_more hfirst, scan_digits rfl hdigits.tail,
      NumberScan.foldl_push_fraction rfl]
    refine scan_exponent (n := { n with place := .fraction, fraction := ds.reverse ++ [d] }) hl
      (Or.inr (Or.inr rfl)) ?_ ⟨hnegative, hwhole, hdown, ?_⟩ hr
    · simp [NumberScan.literal?, hnegative, hwhole, hf]
    · simp [hf]

/-- A literal after the character that its number begins with. -/
theorem scan_whole {l : Literal} (hl : l.Proper) {rest : List Char} (hr : AfterValue rest) :
    ∃ d ds, l.whole = d :: ds ∧ Numeral.isDigit d = true ∧
      scanFrom (.number (firstDigit l.negative d))
          ((ds ++ (l.fractionText ++ (l.exponentText ++ rest))).map some)
        = .number l :: scanFrom .between (rest.map some) := by
  rcases hl.begins with hzero | ⟨d, ds, hw, hd⟩
  · refine ⟨'0', [], hzero, rfl, ?_⟩
    exact scan_tail hl (Or.inl rfl) ⟨rfl, by rw [hzero]; rfl, rfl, rfl⟩ hr
  · have hdigits : AreDigits (d :: ds) := hw ▸ hl.whole
    refine ⟨d, ds, hw, hdigits d (List.mem_cons_self ..), ?_⟩
    have hplace : (firstDigit l.negative d).place = .whole := by
      rw [firstDigit, if_neg hd]
    rw [scan_digits (by rw [hplace]; rfl) hdigits.tail, NumberScan.foldl_push_whole hplace]
    have hread : (ds.reverse ++ (firstDigit l.negative d).whole).reverse = l.whole := by
      simp [firstDigit, hw]
    exact scan_tail (n := { firstDigit l.negative d with
      whole := ds.reverse ++ (firstDigit l.negative d).whole }) hl (Or.inr hplace)
      ⟨rfl, hread, rfl, rfl⟩ hr

/-- The text of a literal scans to its token. -/
theorem scan_literal {l : Literal} (hl : l.Proper) {rest : List Char} (hr : AfterValue rest) :
    scanFrom .between ((l.text ++ rest).map some)
      = .number l :: scanFrom .between (rest.map some) := by
  obtain ⟨d, ds, hw, hd, hscan⟩ := scan_whole hl hr
  have hminus : scanStep .between (some '-')
      = ([], .number ⟨.sign, true, [], [], false, []⟩) := rfl
  have htext : l.text ++ rest = (if l.negative then ['-'] else []) ++
      d :: (ds ++ (l.fractionText ++ (l.exponentText ++ rest))) := by
    simp only [Literal.text, hw, List.append_assoc, List.cons_append]
  rw [htext]
  cases hsign : l.negative with
  | true =>
    rw [hsign] at hscan
    simp only [if_true, List.singleton_append]
    rw [scanFrom_of_step hminus, scanFrom_of_step (scanStep_sign_digit hd), hscan]
    rfl
  | false =>
    rw [hsign] at hscan
    have hstart : scanStep .between (some d) = ([], .number (firstDigit false d)) :=
      scanStart_digit hd
    simp only [Bool.false_eq_true, if_false, List.nil_append]
    rw [scanFrom_of_step hstart, hscan]
    rfl

/-! ### What is written for a number -/

def literalOf (n : Int) : Literal := ⟨decide (n < 0), Numeral.write n.natAbs, none, none⟩

theorem text_literalOf (n : Int) : (literalOf n).text = writeInt n := by
  by_cases hn : n < 0 <;>
    simp [literalOf, Literal.text, Literal.fractionText, Literal.exponentText, writeInt, hn]

theorem areDigits_write (n : Nat) : AreDigits (Numeral.write n) :=
  fun _ h => Numeral.isDigit_of_mem_write h

/-- A digit in front that is not zero. -/
def Leading (ds : List Char) : Prop := ∃ d rest, ds = d :: rest ∧ d ≠ '0'

theorem leading_write {n : Nat} (hn : 0 < n) : Leading (Numeral.write n) := by
  have hne := Numeral.head?_write_ne hn
  cases hw : Numeral.write n with
  | nil => exact absurd hw (Numeral.write_ne_nil n)
  | cons d ds => exact ⟨d, ds, rfl, fun hd => hne (by rw [hw, hd]; rfl)⟩

theorem proper_literalOf (n : Int) : (literalOf n).Proper where
  whole := areDigits_write _
  begins := by
    rcases Nat.eq_zero_or_pos n.natAbs with h | h
    · exact Or.inl (by rw [literalOf, h]; rfl)
    · exact Or.inr (leading_write h)
  fraction := fun _ h => by cases h
  exponent := fun _ _ h => by cases h

theorem AreDigits.append {ds es : List Char} (hd : AreDigits ds) (he : AreDigits es) :
    AreDigits (ds ++ es) := fun c hc => (List.mem_append.1 hc).elim (hd c) (he c)

theorem areDigits_zeros (n : Nat) : AreDigits (List.replicate n '0') := by
  intro c hc
  rw [List.eq_of_mem_replicate hc]
  rfl

theorem Leading.append {ds : List Char} (h : Leading ds) (es : List Char) : Leading (ds ++ es) := by
  obtain ⟨d, rest, rfl, hd⟩ := h
  exact ⟨d, rest ++ es, rfl, hd⟩

/-! ### Literals as they are written -/

/-- Digits before a point and after it. -/
def pointLiteral (whole fraction : List Char) : Literal := ⟨false, whole, some fraction, none⟩

theorem text_pointLiteral (whole fraction : List Char) :
    (pointLiteral whole fraction).text = whole ++ '.' :: fraction := by
  simp [pointLiteral, Literal.text, Literal.fractionText, Literal.exponentText]

theorem proper_pointLiteral {whole fraction : List Char} (hw : AreDigits whole)
    (hb : whole = ['0'] ∨ Leading whole) (hf : AreDigits fraction) (hne : fraction ≠ []) :
    (pointLiteral whole fraction).Proper where
  whole := hw
  begins := hb
  fraction := fun _ h => Option.some.inj h ▸ ⟨hf, hne⟩
  exponent := fun _ _ h => by cases h

/-- Digits that are written with a point have no more of them before the point than asked for. -/
theorem exists_pointLiteral_of_positional {ds : List Char} (hd : AreDigits ds) (hl : Leading ds)
    (point : Int) :
    ∃ whole fraction, (pointLiteral whole fraction).Proper ∧ whole.length ≤ max 1 point.toNat ∧
      (pointLiteral whole fraction).text = positional ds point := by
  have hzero : AreDigits ['0'] := areDigits_zeros 1
  have hne : ds ≠ [] := by
    obtain ⟨d, rest, rfl, -⟩ := hl
    exact List.cons_ne_nil _ _
  unfold positional
  dsimp only
  split
  · have hfraction : List.replicate (-point).toNat '0' ++ ds ≠ [] := by simp [hne]
    exact ⟨['0'], _, proper_pointLiteral hzero (Or.inl rfl) ((areDigits_zeros _).append hd) hfraction,
      Nat.le_max_left .., by simp [text_pointLiteral]⟩
  · split
    · rename_i hshort
      refine ⟨_, ['0'], proper_pointLiteral (hd.append (areDigits_zeros (point.toNat - ds.length)))
        (Or.inr (hl.append _)) hzero (List.cons_ne_nil _ _), ?_, by simp [text_pointLiteral]⟩
      rw [List.length_append, List.length_replicate]
      omega
    · have htake : Leading (ds.take point.toNat) := by
        obtain ⟨d, rest, rfl, hlead⟩ := hl
        obtain ⟨p, hp⟩ : ∃ p, point.toNat = p + 1 := ⟨point.toNat - 1, by omega⟩
        exact ⟨d, rest.take p, by rw [hp]; rfl, hlead⟩
      have hdrop : ds.drop point.toNat ≠ [] := by
        rw [Ne, List.drop_eq_nil_iff]
        omega
      refine ⟨_, _, proper_pointLiteral (fun c hc => hd c (List.mem_of_mem_take hc)) (Or.inr htake)
        (fun c hc => hd c (List.mem_of_mem_drop hc)) hdrop, ?_, text_pointLiteral ..⟩
      exact (List.length_take_le _ _).trans (Nat.le_max_right ..)

/-- One digit, the rest of the digits after a point, and an exponent. -/
def exponentLiteral (d : Char) (rest : List Char) (exponent : Int) : Literal :=
  ⟨false, [d], if rest = [] then none else some rest,
    some (decide (exponent < 0), Numeral.write exponent.natAbs)⟩

theorem text_exponentLiteral (d : Char) (rest : List Char) (exponent : Int) :
    (exponentLiteral d rest exponent).text = withExponent (d :: rest) exponent := by
  cases rest <;>
    simp [exponentLiteral, Literal.text, Literal.fractionText, Literal.exponentText, withExponent]

theorem proper_exponentLiteral {d : Char} {rest : List Char} (hd : AreDigits (d :: rest))
    (hne : d ≠ '0') (exponent : Int) : (exponentLiteral d rest exponent).Proper where
  whole := fun c hc => hd c (by rw [List.mem_singleton.1 hc]; simp)
  begins := Or.inr ⟨d, [], rfl, hne⟩
  fraction := by
    intro ds h
    rw [exponentLiteral] at h
    split at h
    · cases h
    · rename_i hrest
      exact Option.some.inj h ▸ ⟨hd.tail, hrest⟩
  exponent := by
    intro down ds h
    cases h
    exact ⟨areDigits_write _, Numeral.write_ne_nil _⟩

theorem Literal.Proper.withSign {l : Literal} (h : l.Proper) (negative : Bool) :
    ({ l with negative } : Literal).Proper := ⟨h.whole, h.begins, h.fraction, h.exponent⟩

end AppBackend.Json
