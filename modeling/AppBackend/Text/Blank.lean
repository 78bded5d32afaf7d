/-!
# Blank characters

The characters with the Unicode property White_Space. Texts are trimmed of them where a rule says
"blank"; where a rule says "space", it means U+0020 alone.
-/

namespace AppBackend.Text

/-- The members of White_Space, by scalar value. -/
def isBlank (c : Char) : Bool :=
  let n := c.toNat
  (0x9 ≤ n && n ≤ 0xD) || n == 0x20 || n == 0x85 || n == 0xA0 || n == 0x1680
    || (0x2000 ≤ n && n ≤ 0x200A) || n == 0x2028 || n == 0x2029 || n == 0x202F || n == 0x205F
    || n == 0x3000

/-! ### Trimming -/

def trimStart (p : Char → Bool) (cs : List Char) : List Char := cs.dropWhile p

def trimEnd (p : Char → Bool) (cs : List Char) : List Char := (cs.reverse.dropWhile p).reverse

/-- Leading and trailing blanks removed. -/
def trimBlank (cs : List Char) : List Char := trimEnd isBlank (trimStart isBlank cs)

theorem trimStart_eq_self {p : Char → Bool} {cs : List Char}
    (h : ∀ c, cs.head? = some c → p c = false) :
    trimStart p cs = cs := by
  cases cs with
  | nil => rfl
  | cons c cs => simp [trimStart, h c rfl]

theorem trimEnd_eq_self {p : Char → Bool} {cs : List Char} (h : ∀ c ∈ cs, p c = false) :
    trimEnd p cs = cs := by
  have hstart : cs.reverse.dropWhile p = cs.reverse :=
    trimStart_eq_self fun c hc => h c (List.mem_reverse.1 (List.mem_of_head? hc))
  rw [trimEnd, hstart, List.reverse_reverse]

theorem trimBlank_eq_self {cs : List Char} (h : ∀ c ∈ cs, isBlank c = false) :
    trimBlank cs = cs := by
  rw [trimBlank, trimStart_eq_self fun c hc => h c (List.mem_of_head? hc), trimEnd_eq_self h]

end AppBackend.Text
