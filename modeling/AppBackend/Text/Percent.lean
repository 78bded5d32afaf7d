import AppBackend.Text.Hex
import AppBackend.Text.Utf8

/-!
# Percent coding

A text as unreserved characters and `%XX` triples. `encode` leaves ASCII letters, digits and `-_.~`
as they are and writes every other octet of the text's UTF-8 form as a triple; `decode` reads
triples back and keeps a `%` that begins none. Main statement: `decode_encode`.
-/

namespace AppBackend.Percent

/-- Octets that stand for themselves. -/
def isUnreserved (b : Nat) : Bool :=
  (0x41 ≤ b && b ≤ 0x5A) || (0x61 ≤ b && b ≤ 0x7A) || (0x30 ≤ b && b ≤ 0x39)
    || b == 0x2D || b == 0x5F || b == 0x2E || b == 0x7E

def encodeOctet (b : UInt8) : List Char :=
  if isUnreserved b.toNat then [Char.ofNat b.toNat]
  else ['%', Hex.upperDigit (b.toNat / 16), Hex.upperDigit (b.toNat % 16)]

def encodeOctets (bs : Bytes) : List Char := bs.flatMap encodeOctet

def encode (s : String) : List Char := encodeOctets (Utf8.ofString s)

def triple? : Bytes → Option UInt8
  | p :: a :: b :: _ =>
    if p = 0x25 then do
      let hi ← Hex.value? (Char.ofNat a.toNat)
      let lo ← Hex.value? (Char.ofNat b.toNat)
      return UInt8.ofNat (hi * 16 + lo)
    else none
  | _ => none

def decode : Bytes → Bytes
  | [] => []
  | p :: bs =>
    match triple? (p :: bs) with
    | some v => v :: decode (bs.drop 2)
    | none => p :: decode bs
termination_by bs => bs.length
decreasing_by
  all_goals simp only [List.length_cons, List.length_drop]; omega

/-! ### What is written reads back -/

theorem decode_triple {a b : Char} {hi lo : Nat} (rest : Bytes) (ha : a.toNat < 128)
    (hb : b.toNat < 128) (ea : Hex.value? a = some hi) (eb : Hex.value? b = some lo) :
    decode (0x25 :: .ofNat a.toNat :: .ofNat b.toNat :: rest)
      = UInt8.ofNat (hi * 16 + lo) :: decode rest := by
  have na : (UInt8.ofNat a.toNat).toNat = a.toNat := Utf8.toNat_ofNat_octet (by omega)
  have nb : (UInt8.ofNat b.toNat).toNat = b.toNat := Utf8.toNat_ofNat_octet (by omega)
  have h : triple? (0x25 :: .ofNat a.toNat :: .ofNat b.toNat :: rest)
      = some (UInt8.ofNat (hi * 16 + lo)) := by
    simp only [triple?, na, nb, Char.ofNat_toNat, ea, eb]
    rfl
  rw [decode, h]
  rfl

theorem decode_plain {p : UInt8} (rest : Bytes) (h : p ≠ 0x25) :
    decode (p :: rest) = p :: decode rest := by
  have : triple? (p :: rest) = none := by
    unfold triple?
    split
    · rename_i heq
      simp only [List.cons.injEq] at heq
      rw [if_neg (heq.1 ▸ h)]
    · rfl
  rw [decode, this]

theorem upperDigit_lt : ∀ n, n < 16 → (Hex.upperDigit n).toNat < 128 := by decide

theorem toNat_ofNat_ascii {n : Nat} (h : n < 128) : (Char.ofNat n).toNat = n := by
  have hv : n.isValidChar := Or.inl (by omega)
  unfold Char.ofNat
  rw [dif_pos hv]
  rfl

theorem lt_of_isUnreserved {n : Nat} (h : isUnreserved n = true) : n < 128 := by
  simp [isUnreserved] at h
  omega

theorem encodeOctet_ascii (b : UInt8) : ∀ c ∈ encodeOctet b, c.toNat < 128 := by
  have hb : b.toNat < 256 := b.toNat_lt
  intro c hc
  unfold encodeOctet at hc
  split at hc
  · rename_i h
    rw [List.mem_singleton.1 hc, toNat_ofNat_ascii (lt_of_isUnreserved h)]
    exact lt_of_isUnreserved h
  · simp only [List.mem_cons, List.not_mem_nil, or_false] at hc
    rcases hc with rfl | rfl | rfl
    · decide
    · exact upperDigit_lt _ (by omega)
    · exact upperDigit_lt _ (by omega)

theorem utf8_encode_ascii {cs : List Char} (h : ∀ c ∈ cs, c.toNat < 128) :
    Utf8.encode cs = cs.map fun c => UInt8.ofNat c.toNat := by
  induction cs with
  | nil => rfl
  | cons c cs ih =>
    rw [Utf8.encode_cons, ih fun d hd => h d (List.mem_cons_of_mem _ hd)]
    simp [Utf8.encodeChar, h c (by simp)]

theorem decode_encodeOctet (b : UInt8) (rest : Bytes) :
    decode (Utf8.encode (encodeOctet b) ++ rest) = b :: decode rest := by
  rw [utf8_encode_ascii (encodeOctet_ascii b)]
  have hb : b.toNat < 256 := b.toNat_lt
  unfold encodeOctet
  split
  · rename_i h
    have hn : b.toNat ≠ 0x25 := by
      intro e
      rw [e] at h
      exact absurd h (by decide)
    have hc : (Char.ofNat b.toNat).toNat = b.toNat := toNat_ofNat_ascii (lt_of_isUnreserved h)
    simp only [List.map_cons, List.map_nil, List.cons_append, List.nil_append, hc,
      UInt8.ofNat_toNat]
    exact decode_plain rest fun e => hn (by rw [e]; rfl)
  · simp only [List.map_cons, List.map_nil, List.cons_append, List.nil_append]
    have := decode_triple rest (upperDigit_lt (b.toNat / 16) (by omega))
      (upperDigit_lt (b.toNat % 16) (by omega)) (Hex.value?_upperDigit _ (by omega))
      (Hex.value?_upperDigit _ (by omega))
    rw [show UInt8.ofNat '%'.toNat = 0x25 from rfl, this,
      show b.toNat / 16 * 16 + b.toNat % 16 = b.toNat by omega, UInt8.ofNat_toNat]

theorem decode_encodeOctets (bs : Bytes) : decode (Utf8.encode (encodeOctets bs)) = bs := by
  unfold encodeOctets
  induction bs with
  | nil => rw [List.flatMap_nil, Utf8.encode_nil, decode]
  | cons b bs ih => rw [List.flatMap_cons, Utf8.encode_append, decode_encodeOctet, ih]

theorem decode_encode (s : String) : decode (Utf8.encode (encode s)) = Utf8.ofString s :=
  decode_encodeOctets _

end AppBackend.Percent
