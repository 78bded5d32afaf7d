/-!
# UTF-8

Octet strings and the text they hold. `encode` writes characters. `decode` reads octets back as a
list of units: a unit is a character, or `none` for a longest run of octets that begins a character
without finishing it, or for one octet that begins none. Main statement: `decode_encode`, so text
written is text read.
-/

namespace AppBackend

abbrev Bytes := List UInt8

namespace Utf8

/-! ### Writing -/

/-- One to four octets: six payload bits in each octet after the first. -/
def encodeChar (c : Char) : Bytes :=
  let n := c.toNat
  if n < 0x80 then [.ofNat n]
  else if n < 0x800 then [.ofNat (0xC0 + n / 64), .ofNat (0x80 + n % 64)]
  else if n < 0x10000 then
    [.ofNat (0xE0 + n / 4096), .ofNat (0x80 + n / 64 % 64), .ofNat (0x80 + n % 64)]
  else
    [.ofNat (0xF0 + n / 262144), .ofNat (0x80 + n / 4096 % 64), .ofNat (0x80 + n / 64 % 64),
      .ofNat (0x80 + n % 64)]

def encode (cs : List Char) : Bytes := cs.flatMap encodeChar

def ofString (s : String) : Bytes := encode s.toList

theorem encode_nil : encode [] = [] := rfl

theorem encode_cons (c : Char) (cs : List Char) : encode (c :: cs) = encodeChar c ++ encode cs :=
  rfl

theorem encode_append (cs ds : List Char) : encode (cs ++ ds) = encode cs ++ encode ds := by
  simp [encode]

/-! ### Reading -/

/-- A character begun but not finished: octets still owed, the range of the next one, and the
payload so far. -/
structure Pending where
  owed : Nat
  low : Nat
  high : Nat
  payload : Nat

/-- What a first octet promises. The ranges leave out over-long forms, surrogates and everything
above U+10FFFF. -/
def lead? (b : Nat) : Option Pending :=
  if 0xC2 ≤ b ∧ b ≤ 0xDF then some ⟨1, 0x80, 0xBF, b - 0xC0⟩
  else if b = 0xE0 then some ⟨2, 0xA0, 0xBF, 0⟩
  else if b = 0xED then some ⟨2, 0x80, 0x9F, 0xD⟩
  else if 0xE1 ≤ b ∧ b ≤ 0xEF then some ⟨2, 0x80, 0xBF, b - 0xE0⟩
  else if b = 0xF0 then some ⟨3, 0x90, 0xBF, 0⟩
  else if 0xF1 ≤ b ∧ b ≤ 0xF3 then some ⟨3, 0x80, 0xBF, b - 0xF0⟩
  else if b = 0xF4 then some ⟨3, 0x80, 0x8F, 4⟩
  else none

/-- An octet met between characters: what it yields at once, and what it begins. -/
def start (b : Nat) : List (Option Char) × Option Pending :=
  if b < 0x80 then ([some (Char.ofNat b)], none)
  else match lead? b with
    | some p => ([], some p)
    | none => ([none], none)

/-- One octet. An octet out of range ends the run before it and is looked at afresh. -/
def step (st : Option Pending) (b : Nat) : List (Option Char) × Option Pending :=
  match st with
  | none => start b
  | some p =>
    if p.low ≤ b ∧ b ≤ p.high then
      let payload := p.payload * 64 + (b - 0x80)
      if p.owed ≤ 1 then ([some (Char.ofNat payload)], none)
      else ([], some ⟨p.owed - 1, 0x80, 0xBF, payload⟩)
    else
      let (units, next) := start b
      (none :: units, next)

def decodeFrom (st : Option Pending) : Bytes → List (Option Char)
  | [] => if st.isSome then [none] else []
  | b :: bs =>
    let (units, next) := step st b.toNat
    units ++ decodeFrom next bs

def decode (bs : Bytes) : List (Option Char) := decodeFrom none bs

def text? (bs : Bytes) : Option String := ((decode bs).mapM id).map String.ofList

/-- The text of an octet string, with U+FFFD for every unit that is no character. -/
def lossy (bs : Bytes) : String := String.ofList ((decode bs).map (·.getD '\uFFFD'))

/-! ### Text written is text read -/

theorem toNat_ofNat_octet {n : Nat} (h : n < 256) : (UInt8.ofNat n).toNat = n := by
  simp; omega

theorem decodeFrom_cons (st : Option Pending) {n : Nat} (h : n < 256) (bs : Bytes) :
    decodeFrom st (UInt8.ofNat n :: bs) = (step st n).1 ++ decodeFrom (step st n).2 bs := by
  simp [decodeFrom, toNat_ofNat_octet h]

/-- A first octet and its one continuation yield one character. -/
theorem decodeFrom_two {a b low high v : Nat} (bs : Bytes) (ha : ¬ a < 128) (ha' : a < 256)
    (hb : b < 256) (hl : lead? a = some ⟨1, low, high, v⟩) (h1 : low ≤ b ∧ b ≤ high) :
    decodeFrom none (.ofNat a :: .ofNat b :: bs)
      = some (Char.ofNat (v * 64 + (b - 128))) :: decodeFrom none bs := by
  rw [decodeFrom_cons _ ha', decodeFrom_cons _ hb]
  simp only [step, start, ha, hl, h1, if_false]
  rfl

theorem decodeFrom_three {a b c low high v : Nat} (bs : Bytes) (ha : ¬ a < 128) (ha' : a < 256)
    (hb : b < 256) (hl : lead? a = some ⟨2, low, high, v⟩) (h1 : low ≤ b ∧ b ≤ high)
    (h2 : 128 ≤ c ∧ c ≤ 191) :
    decodeFrom none (.ofNat a :: .ofNat b :: .ofNat c :: bs)
      = some (Char.ofNat ((v * 64 + (b - 128)) * 64 + (c - 128))) :: decodeFrom none bs := by
  rw [decodeFrom_cons _ ha', decodeFrom_cons _ hb, decodeFrom_cons _ (by omega)]
  simp [step, start, ha, hl, h1, h2]

theorem decodeFrom_four {a b c d low high v : Nat} (bs : Bytes) (ha : ¬ a < 128) (ha' : a < 256)
    (hb : b < 256) (hl : lead? a = some ⟨3, low, high, v⟩) (h1 : low ≤ b ∧ b ≤ high)
    (h2 : 128 ≤ c ∧ c ≤ 191) (h3 : 128 ≤ d ∧ d ≤ 191) :
    decodeFrom none (.ofNat a :: .ofNat b :: .ofNat c :: .ofNat d :: bs)
      = some (Char.ofNat (((v * 64 + (b - 128)) * 64 + (c - 128)) * 64 + (d - 128)))
        :: decodeFrom none bs := by
  rw [decodeFrom_cons _ ha', decodeFrom_cons _ hb, decodeFrom_cons _ (by omega),
    decodeFrom_cons _ (by omega)]
  simp [step, start, ha, hl, h1, h2, h3]

theorem decodeFrom_encodeChar (c : Char) (bs : Bytes) :
    decodeFrom none (encodeChar c ++ bs) = some c :: decodeFrom none bs := by
  have hc : Char.ofNat c.toNat = c := Char.ofNat_toNat c
  have hv : c.toNat < 0xD800 ∨ (0xDFFF < c.toNat ∧ c.toNat < 0x110000) := c.valid
  unfold encodeChar
  generalize c.toNat = n at hc hv ⊢
  simp only
  split
  · rename_i h
    rw [List.cons_append, List.nil_append, decodeFrom_cons _ (by omega)]
    simp [step, start, h, hc]
  · split
    · rename_i h1 h2
      have l : lead? (192 + n / 64) = some ⟨1, 0x80, 0xBF, n / 64⟩ := by
        unfold lead?
        rw [if_pos (by omega), show 192 + n / 64 - 0xC0 = n / 64 by omega]
      simp only [List.cons_append, List.nil_append]
      rw [decodeFrom_two bs (by omega) (by omega) (by omega) l (by omega),
        show n / 64 * 64 + (128 + n % 64 - 128) = n by omega, hc]
    · split
      · rename_i h1 h2 h3
        simp only [List.cons_append, List.nil_append]
        have l : ∃ low high, lead? (224 + n / 4096) = some ⟨2, low, high, n / 4096⟩ ∧
            low ≤ 128 + n / 64 % 64 ∧ 128 + n / 64 % 64 ≤ high := by
          by_cases hE0 : n / 4096 = 0
          · exact ⟨_, _, by rw [hE0]; rfl, by omega, by omega⟩
          · by_cases hED : n / 4096 = 13
            · exact ⟨_, _, by rw [hED]; rfl, by omega, by omega⟩
            · refine ⟨0x80, 0xBF, ?_, by omega, by omega⟩
              unfold lead?
              rw [if_neg (by omega), if_neg (by omega), if_neg (by omega), if_pos (by omega),
                show 224 + n / 4096 - 0xE0 = n / 4096 by omega]
        obtain ⟨low, high, hl, hr⟩ := l
        rw [decodeFrom_three bs (by omega) (by omega) (by omega) hl hr (by omega),
          show (n / 4096 * 64 + (128 + n / 64 % 64 - 128)) * 64 + (128 + n % 64 - 128) = n by omega,
          hc]
      · rename_i h1 h2 h3
        simp only [List.cons_append, List.nil_append]
        have l : ∃ low high, lead? (240 + n / 262144) = some ⟨3, low, high, n / 262144⟩ ∧
            low ≤ 128 + n / 4096 % 64 ∧ 128 + n / 4096 % 64 ≤ high := by
          by_cases hF0 : n / 262144 = 0
          · exact ⟨_, _, by rw [hF0]; rfl, by omega, by omega⟩
          · by_cases hF4 : n / 262144 = 4
            · exact ⟨_, _, by rw [hF4]; rfl, by omega, by omega⟩
            · refine ⟨0x80, 0xBF, ?_, by omega, by omega⟩
              unfold lead?
              rw [if_neg (by omega), if_neg (by omega), if_neg (by omega), if_neg (by omega),
                if_neg (by omega), if_pos (by omega),
                show 240 + n / 262144 - 0xF0 = n / 262144 by omega]
        obtain ⟨low, high, hl, hr⟩ := l
        rw [decodeFrom_four bs (by omega) (by omega) (by omega) hl hr (by omega) (by omega),
          show ((n / 262144 * 64 + (128 + n / 4096 % 64 - 128)) * 64
            + (128 + n / 64 % 64 - 128)) * 64
            + (128 + n % 64 - 128) = n by omega, hc]

theorem decode_encode (cs : List Char) : decode (encode cs) = cs.map some := by
  unfold decode
  induction cs with
  | nil => rfl
  | cons c cs ih => rw [encode_cons, decodeFrom_encodeChar, ih, List.map_cons]

theorem text?_ofString (s : String) : text? (ofString s) = some s := by
  have h : ∀ cs : List Char, (cs.map some).mapM (m := Option) id = some cs := by
    intro cs
    induction cs with
    | nil => rfl
    | cons c cs ih => simp [ih]
  simp [text?, ofString, decode_encode, h, String.ofList_toList]

theorem lossy_ofString (s : String) : lossy (ofString s) = s := by
  simp [lossy, ofString, decode_encode, Function.comp_def, String.ofList_toList]

end Utf8
end AppBackend
