import AppBackend.Json.Reader
import AppBackend.Proofs.Json.Floats

/-!
# What is written reads back

The text of a value scanned into tokens, and the tokens read by the machine. A value is ordered if
its whole numbers fit 64 bits and its objects are in order, and plain if it has no binary64 numbers
either. Main statements: `ofBytes?_bytes_of_isOrdered`, an ordered value that is not too deep reads
back with its binary64 numbers read anew, and no other does; and `ofBytes?_bytes`, a plain one reads
back as it was.
-/

namespace AppBackend.Json

/-! ### Plain values -/

mutual

def isPlain : Json → Bool
  | .null | .bool _ | .str _ => true
  | .int n => -0x8000000000000000 ≤ n && n < 0x10000000000000000
  | .float _ => false
  | .arr items => arePlain items
  | .obj members => decide (Keyed.Ascending members) && arePlainMembers members

def arePlain : List Json → Bool
  | [] => true
  | v :: vs => isPlain v && arePlain vs

def arePlainMembers : List (String × Json) → Bool
  | [] => true
  | (_, v) :: ms => isPlain v && arePlainMembers ms

end

theorem arePlainMembers_iff {ms : List (String × Json)} :
    arePlainMembers ms = true ↔ ∀ m ∈ ms, m.2.isPlain = true := by
  induction ms with
  | nil => simp [arePlainMembers]
  | cons m ms ih => simp [arePlainMembers, ih]

theorem isPlain_obj {fs : Fields} :
    (obj fs).isPlain = true ↔ Keyed.Ascending fs ∧ ∀ m ∈ fs, m.2.isPlain = true := by
  rw [isPlain, Bool.and_eq_true, decide_eq_true_eq, arePlainMembers_iff]

/-! ### Ordered values -/

mutual

def isOrdered : Json → Bool
  | .null | .bool _ | .float _ | .str _ => true
  | .int n => -0x8000000000000000 ≤ n && n < 0x10000000000000000
  | .arr items => areOrdered items
  | .obj members => decide (Keyed.Ascending members) && areOrderedMembers members

def areOrdered : List Json → Bool
  | [] => true
  | v :: vs => isOrdered v && areOrdered vs

def areOrderedMembers : List (String × Json) → Bool
  | [] => true
  | (_, v) :: ms => isOrdered v && areOrderedMembers ms

end

theorem areOrdered_iff {vs : List Json} :
    areOrdered vs = true ↔ ∀ v ∈ vs, v.isOrdered = true := by
  induction vs with
  | nil => simp [areOrdered]
  | cons v vs ih => simp [areOrdered, ih]

theorem areOrderedMembers_iff {ms : List (String × Json)} :
    areOrderedMembers ms = true ↔ ∀ m ∈ ms, m.2.isOrdered = true := by
  induction ms with
  | nil => simp [areOrderedMembers]
  | cons m ms ih => simp [areOrderedMembers, ih]

theorem isOrdered_obj {fs : Fields} :
    (obj fs).isOrdered = true ↔ Keyed.Ascending fs ∧ ∀ m ∈ fs, m.2.isOrdered = true := by
  rw [isOrdered, Bool.and_eq_true, decide_eq_true_eq, areOrderedMembers_iff]

theorem isOrdered_objs {ms : List Fields} (h : ∀ m ∈ ms, (obj m).isOrdered = true) :
    (arr (ms.map obj)).isOrdered = true := by
  rw [isOrdered, areOrdered_iff]
  intro v hv
  obtain ⟨m, hm, rfl⟩ := List.mem_map.1 hv
  exact h m hm

mutual

theorem isOrdered_of_isPlain {v : Json} (h : v.isPlain = true) : v.isOrdered = true := by
  match v, h with
  | .null, _ | .bool _, _ | .str _, _ => rfl
  | .int _, h => exact h
  | .arr _, h => exact areOrdered_of_arePlain h
  | .obj _, h =>
    rw [isPlain, Bool.and_eq_true] at h
    rw [isOrdered, Bool.and_eq_true]
    exact ⟨h.1, areOrderedMembers_of_arePlainMembers h.2⟩

theorem areOrdered_of_arePlain {vs : List Json} (h : arePlain vs = true) :
    areOrdered vs = true := by
  match vs, h with
  | [], _ => rfl
  | _ :: _, h =>
    rw [arePlain, Bool.and_eq_true] at h
    rw [areOrdered, Bool.and_eq_true]
    exact ⟨isOrdered_of_isPlain h.1, areOrdered_of_arePlain h.2⟩

theorem areOrderedMembers_of_arePlainMembers {ms : List (String × Json)}
    (h : arePlainMembers ms = true) : areOrderedMembers ms = true := by
  match ms, h with
  | [], _ => rfl
  | (_, _) :: _, h =>
    rw [arePlainMembers, Bool.and_eq_true] at h
    rw [areOrderedMembers, Bool.and_eq_true]
    exact ⟨isOrdered_of_isPlain h.1, areOrderedMembers_of_arePlainMembers h.2⟩

end

/-! ### Depth -/

mutual

/-- The containers open at once in the text of a value. -/
def depth : Json → Nat
  | .arr items => depthOfItems items + 1
  | .obj members => depthOfMembers members + 1
  | _ => 0

def depthOfItems : List Json → Nat
  | [] => 0
  | v :: vs => max (depth v) (depthOfItems vs)

def depthOfMembers : List (String × Json) → Nat
  | [] => 0
  | (_, v) :: ms => max (depth v) (depthOfMembers ms)

end

theorem depth_le_of_mem {ms : Fields} {m : String × Json} (h : m ∈ ms) :
    m.2.depth ≤ depthOfMembers ms := by
  induction ms with
  | nil => cases h
  | cons n ms ih =>
    rw [depthOfMembers]
    rcases List.mem_cons.1 h with rfl | h
    · exact Nat.le_max_left ..
    · exact Nat.le_trans (ih h) (Nat.le_max_right ..)

theorem depthOfMembers_le {ms : Fields} {n : Nat} (h : ∀ m ∈ ms, m.2.depth ≤ n) :
    depthOfMembers ms ≤ n := by
  induction ms with
  | nil => exact Nat.zero_le n
  | cons m ms ih =>
    rw [depthOfMembers, Nat.max_le]
    exact ⟨h m (List.mem_cons_self ..), ih fun m' hm => h m' (List.mem_cons_of_mem _ hm)⟩

section
variable {fs : Fields} {v : Json}

theorem isPlain_insert (hfs : (obj fs).isPlain = true) (key : String) (hv : v.isPlain = true) :
    (obj (fs.insert key v)).isPlain = true := by
  obtain ⟨hasc, hvalues⟩ := isPlain_obj.1 hfs
  refine isPlain_obj.2 ⟨hasc.insert key v, fun m hm => ?_⟩
  rcases Keyed.mem_insert hm with rfl | hm
  · exact hv
  · exact hvalues m hm

theorem isPlain_eraseAll (hfs : (obj fs).isPlain = true) (keys : List String) :
    (obj (fs.eraseAll keys)).isPlain = true := by
  obtain ⟨hasc, hvalues⟩ := isPlain_obj.1 hfs
  exact isPlain_obj.2 ⟨hasc.eraseAll keys, fun m hm => hvalues m (Keyed.mem_eraseAll hm)⟩

theorem isOrdered_insert (hfs : (obj fs).isOrdered = true) (key : String)
    (hv : v.isOrdered = true) : (obj (fs.insert key v)).isOrdered = true := by
  obtain ⟨hasc, hvalues⟩ := isOrdered_obj.1 hfs
  refine isOrdered_obj.2 ⟨hasc.insert key v, fun m hm => ?_⟩
  rcases Keyed.mem_insert hm with rfl | hm
  · exact hv
  · exact hvalues m hm

theorem depth_insert_le {n : Nat} (hfs : (obj fs).depth ≤ n) (key : String) (hv : v.depth < n) :
    (obj (fs.insert key v)).depth ≤ n := by
  rw [depth] at hfs ⊢
  refine Nat.succ_le_of_lt (Nat.lt_of_le_of_lt (depthOfMembers_le (n := n - 1) ?_) (by omega))
  intro m hm
  rcases Keyed.mem_insert hm with rfl | hm
  · exact Nat.le_sub_one_of_lt hv
  · have hle := depth_le_of_mem hm
    omega

end

mutual

/-- The tokens in the text of a value. -/
def tokensOf : Json → List Token
  | .null => [.null]
  | .bool b => [.bool b]
  | .int n => [.number (literalOf n)]
  | .float x => tokens ((writeFloat x).map some)
  | .str s => [.text (some s)]
  | .arr items => .openArr :: (tokensOfItems items ++ [.closeArr])
  | .obj members => .openObj :: (tokensOfMembers members ++ [.closeObj])

def tokensOfItems : List Json → List Token
  | [] => []
  | [v] => tokensOf v
  | v :: w :: rest => tokensOf v ++ .comma :: tokensOfItems (w :: rest)

def tokensOfMembers : List (String × Json) → List Token
  | [] => []
  | [(k, v)] => .text (some k) :: .colon :: tokensOf v
  | (k, v) :: m :: rest =>
    .text (some k) :: .colon :: (tokensOf v ++ .comma :: tokensOfMembers (m :: rest))

end

/-! ### Scanning -/

/-- The number that the text of a number reads as. -/
def rereadFloat (x : Double) : Double :=
  match ofUnits? ((writeFloat x).map some) with
  | some (.float y) => y
  | _ => x

theorem tokensOf_float (x : Double) : ∃ l, l.Proper ∧ l.text = writeFloat x ∧
    tokensOf (.float x) = [.number l] ∧ l.value? = some (.float (rereadFloat x)) := by
  obtain ⟨l, hl, htext, hfloat⟩ := exists_literal_of_float x
  have hscan := scan_literal hl (Or.inl rfl)
  rw [List.append_nil, htext] at hscan
  have htokens : tokens ((writeFloat x).map some) = [.number l] := hscan
  refine ⟨l, hl, htext, htokens, ?_⟩
  obtain ⟨y, hy⟩ := hfloat.exists_value
  have hread : ofUnits? ((writeFloat x).map some) = some (.float y) := by
    rw [ofUnits?, htokens]
    simp [readValue, Machine.run, Machine.step, beginValue, Care.standard, Care.number?, hy, complete]
  rw [rereadFloat, hread]
  exact hy

theorem value?_literalOf {n : Int} (hlow : -0x8000000000000000 ≤ n)
    (hhigh : n < 0x10000000000000000) :
    (literalOf n).value? = some (.int n) := by
  have hv : Numeral.value (literalOf n).whole = n.natAbs := Numeral.value_write _
  unfold Literal.value?
  rw [hv]
  dsimp only
  by_cases hn : n < 0
  · have hsign : (literalOf n).negative = true := decide_eq_true hn
    have hpos : 0 < n.natAbs := by omega
    have hle : n.natAbs ≤ 0x8000000000000000 := by omega
    have hback : -(n.natAbs : Int) = n := by omega
    have hfirst : ((literalOf n).fraction.isNone && (literalOf n).exponent.isNone &&
        !(literalOf n).negative && decide (n.natAbs ≤ Literal.significandMax)) = false := by
      rw [hsign]
      rfl
    have hsecond : ((literalOf n).fraction.isNone && (literalOf n).exponent.isNone &&
        (literalOf n).negative && decide (0 < n.natAbs) && decide (n.natAbs ≤ 0x8000000000000000))
          = true := by
      rw [hsign, decide_eq_true hpos, decide_eq_true hle]
      rfl
    rw [hfirst, hsecond, hback]
    rfl
  · have hsign : (literalOf n).negative = false := decide_eq_false hn
    have hle : n.natAbs ≤ Literal.significandMax := by
      unfold Literal.significandMax
      omega
    have hback : (n.natAbs : Int) = n := by omega
    have hfirst : ((literalOf n).fraction.isNone && (literalOf n).exponent.isNone &&
        !(literalOf n).negative && decide (n.natAbs ≤ Literal.significandMax)) = true := by
      rw [hsign, decide_eq_true hle]
      rfl
    rw [hfirst, hback]
    rfl

theorem scanStep_code {c : Char} {d : Nat} (hc : Hex.value? c = some d) (t : TextScan)
    (owed value : Nat) :
    scanStep (.code t owed value) (some c)
      = if owed ≤ 1 then ([], .text (t.pushCode (value * 16 + d)))
        else ([], .code t (owed - 1) (value * 16 + d)) := by
  simp [scanStep, hc]

/-- An escape of four digits, the first two zeros. -/
theorem scan_code (t : TextScan) {a b : Nat} (ha : a < 16) (hb : b < 16) (rest : List Char) :
    scanFrom (.text t) ((['\\', 'u', '0', '0', Hex.digit a, Hex.digit b] ++ rest).map some)
      = scanFrom (.text (t.pushCode (a * 16 + b))) (rest.map some) := by
  have hslash : scanStep (.text t) (some '\\') = ([], .escape t) := rfl
  have hu : scanStep (.escape t) (some 'u') = ([], .code t 4 0) := rfl
  have hz (owed : Nat) : scanStep (.code t (owed + 2) 0) (some '0') = ([], .code t (owed + 1) 0) := by
    have h0 : Hex.value? '0' = some 0 := by decide
    rw [scanStep_code h0, if_neg (by omega)]
    rfl
  have h₁ : scanStep (.code t 2 0) (some (Hex.digit a)) = ([], .code t 1 a) := by
    rw [scanStep_code (Hex.value?_digit a ha), if_neg (by decide)]
    simp
  have h₂ : scanStep (.code t 1 a) (some (Hex.digit b)) = ([], .text (t.pushCode (a * 16 + b))) := by
    rw [scanStep_code (Hex.value?_digit b hb), if_pos (Nat.le_refl 1)]
  simp only [List.cons_append, List.nil_append]
  rw [scanFrom_of_step hslash, scanFrom_of_step hu, scanFrom_of_step (hz 2),
    scanFrom_of_step (hz 1), scanFrom_of_step h₁, scanFrom_of_step h₂]
  rfl

/-- One character of a string, escaped or not. -/
theorem scan_escapeChar (c : Char) (cs rest : List Char) :
    scanFrom (.text ⟨some cs, none⟩) ((escapeChar c ++ rest).map some)
      = scanFrom (.text ⟨some (c :: cs), none⟩) (rest.map some) := by
  unfold escapeChar
  by_cases h1 : c = '"'
  · subst h1; rfl
  by_cases h2 : c = '\\'
  · subst h2; rfl
  by_cases h3 : c = '\x08'
  · subst h3; rfl
  by_cases h4 : c = '\x0c'
  · subst h4; rfl
  by_cases h5 : c = '\n'
  · subst h5; rfl
  by_cases h6 : c = '\r'
  · subst h6; rfl
  by_cases h7 : c = '\t'
  · subst h7; rfl
  simp only [h1, h2, h3, h4, h5, h6, h7, if_false]
  split
  · rename_i hc
    have hcode : c.toNat / 16 * 16 + c.toNat % 16 = c.toNat := by omega
    have hpush : (⟨some cs, none⟩ : TextScan).pushCode c.toNat = ⟨some (c :: cs), none⟩ := by
      have hlow : ¬ (0xD800 ≤ c.toNat ∧ c.toNat ≤ 0xDBFF) := by omega
      have hhigh : ¬ (0xDC00 ≤ c.toNat ∧ c.toNat ≤ 0xDFFF) := by omega
      simp [TextScan.pushCode, hlow, hhigh]
    rw [scan_code _ (by omega) (by omega), hcode, hpush]
  · rename_i hc
    have hstep : scanStep (.text ⟨some cs, none⟩) (some c) = ([], .text ⟨some (c :: cs), none⟩) := by
      simp [scanStep, h1, h2, hc, TextScan.push]
    exact scanFrom_of_step hstep rest

theorem scan_escaped (ds cs rest : List Char) :
    scanFrom (.text ⟨some cs, none⟩) ((ds.flatMap escapeChar ++ rest).map some)
      = scanFrom (.text ⟨some (ds.reverse ++ cs), none⟩) (rest.map some) := by
  induction ds generalizing cs with
  | nil => rfl
  | cons d ds ih =>
    rw [List.flatMap_cons, List.append_assoc, scan_escapeChar, ih, List.reverse_cons,
      List.append_assoc]
    rfl

theorem scan_quoted (s : String) (rest : List Char) :
    scanFrom .between ((quoted s.toList ++ rest).map some)
      = .text (some s) :: scanFrom .between (rest.map some) := by
  have hopen : scanStep .between (some '"') = ([], .text ⟨some [], none⟩) := rfl
  have hclose : scanStep (.text ⟨some s.toList.reverse, none⟩) (some '"')
      = ([.text (some s)], .between) := by
    simp [scanStep, TextScan.value?]
  rw [quoted, List.cons_append, scanFrom_of_step hopen, List.append_assoc, List.nil_append,
    scan_escaped, List.append_nil]
  exact scanFrom_of_step hclose rest

mutual

theorem scan_write_value (v : Json) {rest : List Char} (hr : AfterValue rest) :
    scanFrom .between ((write v ++ rest).map some)
      = tokensOf v ++ scanFrom .between (rest.map some) := by
  match v with
  | .null => rfl
  | .bool true => rfl
  | .bool false => rfl
  | .int n =>
    rw [write, ← text_literalOf]
    exact scan_literal (proper_literalOf n) hr
  | .float x =>
    obtain ⟨l, hl, htext, htokens, -⟩ := tokensOf_float x
    rw [write, htokens, ← htext]
    exact scan_literal hl hr
  | .str s => exact scan_quoted s rest
  | .arr items =>
    have hopen : scanStep .between (some '[') = ([.openArr], .between) := rfl
    have hclose : scanStep .between (some ']') = ([.closeArr], .between) := rfl
    simp only [write, tokensOf, List.cons_append, List.append_assoc, List.nil_append]
    rw [scanFrom_of_step hopen, scan_write_items items (afterValue_cons (by simp) rest),
      scanFrom_of_step hclose]
    rfl
  | .obj members =>
    have hopen : scanStep .between (some '\x7b') = ([.openObj], .between) := rfl
    have hclose : scanStep .between (some '\x7d') = ([.closeObj], .between) := rfl
    simp only [write, tokensOf, List.cons_append, List.append_assoc, List.nil_append]
    rw [scanFrom_of_step hopen, scan_write_members members (afterValue_cons (by simp) rest),
      scanFrom_of_step hclose]
    rfl

theorem scan_write_items (items : List Json) {rest : List Char} (hr : AfterValue rest) :
    scanFrom .between ((writeItems items ++ rest).map some)
      = tokensOfItems items ++ scanFrom .between (rest.map some) := by
  match items with
  | [] => rfl
  | [v] => exact scan_write_value v hr
  | v :: w :: vs =>
    have hcomma : scanStep .between (some ',') = ([.comma], .between) := rfl
    simp only [writeItems, tokensOfItems, List.append_assoc, List.cons_append]
    rw [scan_write_value v (afterValue_cons (by simp) _), scanFrom_of_step hcomma,
      scan_write_items (w :: vs) hr]
    rfl

theorem scan_write_members (members : List (String × Json)) {rest : List Char}
    (hr : AfterValue rest) :
    scanFrom .between ((writeMembers members ++ rest).map some)
      = tokensOfMembers members ++ scanFrom .between (rest.map some) := by
  have hcolon : scanStep .between (some ':') = ([.colon], .between) := rfl
  match members with
  | [] => rfl
  | [(k, v)] =>
    simp only [writeMembers, tokensOfMembers, List.append_assoc, List.cons_append]
    rw [scan_quoted, scanFrom_of_step hcolon, scan_write_value v hr]
    rfl
  | (k, v) :: m :: ms =>
    have hcomma : scanStep .between (some ',') = ([.comma], .between) := rfl
    simp only [writeMembers, tokensOfMembers, List.append_assoc, List.cons_append]
    rw [scan_quoted, scanFrom_of_step hcolon,
      scan_write_value v (afterValue_cons (by simp) _), scanFrom_of_step hcomma,
      scan_write_members (m :: ms) hr]
    rfl

end

theorem tokens_write (v : Json) : tokens ((write v).map some) = tokensOf v := by
  have hscan := scan_write_value v (Or.inl rfl : AfterValue [])
  rw [List.append_nil] at hscan
  rw [tokens, hscan]
  exact List.append_nil _

/-! ### The machine -/

def resume (care : Care) (ts : List Token) : Progress → Except Fault (Json × List Token)
  | .more m => m.run care ts
  | .done v => .ok (v, ts)
  | .refused => .error .malformed

theorem run_cons (care : Care) (m : Machine) (t : Token) (ts : List Token) :
    m.run care (t :: ts) = resume care ts (m.step care t) := by
  rw [Machine.run]
  cases m.step care t <;> rfl

/-- Where an item or the end of the array may come, an item is read as where an item has to. -/
theorem run_itemOrClose {items : List Json} (he : items ≠ []) (care : Care) (acc : List Json)
    (fs : List Frame) (ts : List Token) :
    Machine.run care ⟨.arr acc :: fs, .itemOrClose⟩ (tokensOfItems items ++ ts)
      = Machine.run care ⟨.arr acc :: fs, .value⟩ (tokensOfItems items ++ ts) := by
  have hfirst (v : Json) (us : List Token) :
      Machine.run care ⟨.arr acc :: fs, .itemOrClose⟩ (tokensOf v ++ us)
        = Machine.run care ⟨.arr acc :: fs, .value⟩ (tokensOf v ++ us) := by
    cases v with
    | float x =>
      obtain ⟨l, -, -, htokens, -⟩ := tokensOf_float x
      rw [htokens]
      rfl
    | _ => rfl
  match items, he with
  | [v], _ => exact hfirst v ts
  | v :: w :: ws, _ =>
    rw [tokensOfItems, List.append_assoc]
    exact hfirst v _

theorem run_keyOrClose {members : Fields} (he : members ≠ []) (care : Care) (acc : Fields)
    (key : String) (fs : List Frame) (ts : List Token) :
    Machine.run care ⟨.obj acc key :: fs, .keyOrClose⟩ (tokensOfMembers members ++ ts)
      = Machine.run care ⟨.obj acc key :: fs, .key⟩ (tokensOfMembers members ++ ts) := by
  match members, he with
  | [_], _ => rfl
  | _ :: _ :: _, _ => rfl

/-- Whether keys ascend does not depend on their values. -/
theorem ascending_of_value {acc members : Fields} {k : String} {v : Json}
    (h : Keyed.Ascending (acc ++ (k, v) :: members)) (w : Json) :
    Keyed.Ascending (acc ++ (k, w) :: members) := by
  obtain ⟨hacc, hmembers, hbetween⟩ := List.pairwise_append.1 h
  obtain ⟨hfirst, hrest⟩ := List.pairwise_cons.1 hmembers
  refine List.pairwise_append.2 ⟨hacc, List.pairwise_cons.2 ⟨hfirst, hrest⟩, fun f hf g hg => ?_⟩
  rcases List.mem_cons.1 hg with rfl | hg
  · exact hbetween f hf (k, v) (List.mem_cons_self ..)
  · exact hbetween f hf g (List.mem_cons_of_mem _ hg)

theorem insert_of_ascending {acc members : Fields} {k : String} {v : Json}
    (h : Keyed.Ascending (acc ++ (k, v) :: members)) : Keyed.insert acc k v = acc ++ [(k, v)] := by
  apply Keyed.insert_of_lt
  intro f hf
  exact (List.pairwise_append.1 h).2.2 f hf (k, v) (List.mem_cons_self ..)

theorem run_key (room : Nat) (members : Fields) (key k : String) (fs : List Frame)
    (ts : List Token) :
    Machine.run (.full room) ⟨.obj members key :: fs, .key⟩ (.text (some k) :: .colon :: ts)
      = Machine.run (.full room) ⟨.obj members k :: fs, .value⟩ ts := rfl

mutual

/-- A value with its binary64 numbers as their texts read. -/
def reread : Json → Json
  | .float x => .float (rereadFloat x)
  | .arr items => .arr (rereadItems items)
  | .obj members => .obj (rereadMembers members)
  | v => v

def rereadItems : List Json → List Json
  | [] => []
  | v :: vs => reread v :: rereadItems vs

def rereadMembers : List (String × Json) → List (String × Json)
  | [] => []
  | (k, v) :: ms => (k, reread v) :: rereadMembers ms

end

theorem rereadItems_eq_map (vs : List Json) : rereadItems vs = vs.map reread := by
  induction vs with
  | nil => rfl
  | cons v vs ih => rw [rereadItems, ih, List.map_cons]

theorem rereadMembers_eq_map (ms : Fields) :
    rereadMembers ms = ms.map fun m => (m.1, reread m.2) := by
  induction ms with
  | nil => rfl
  | cons m ms ih => rw [rereadMembers, ih, List.map_cons]

theorem get?_rereadMembers (ms : Fields) (key : String) :
    Keyed.get? (rereadMembers ms) key = (Keyed.get? ms key).map reread := by
  induction ms with
  | nil => rfl
  | cons m ms ih =>
    rw [rereadMembers, Keyed.get?, Keyed.get?, ih]
    split <;> rfl

theorem reread_objs (ms : List Fields) :
    (arr (ms.map obj)).reread = arr (ms.map fun m => obj (rereadMembers m)) := by
  rw [reread, rereadItems_eq_map, List.map_map]
  rfl

theorem filterMap_reread_objs {α : Type} (f : Fields → α) (ms : List Fields) :
    ((some (arr (ms.map obj)).reread).bind arr? |>.getD []).filterMap (fun v => v.obj?.map f)
      = ms.map fun m => f (rereadMembers m) := by
  rw [reread_objs]
  simp only [Option.bind_some, arr?, Option.getD_some, List.filterMap_map]
  exact congrFun List.filterMap_eq_map ms

mutual

theorem reread_of_isPlain {v : Json} (h : v.isPlain = true) : v.reread = v := by
  match v, h with
  | .null, _ | .bool _, _ | .int _, _ | .str _, _ => rfl
  | .arr _, h => rw [reread, rereadItems_of_arePlain h]
  | .obj _, h =>
    rw [isPlain, Bool.and_eq_true] at h
    rw [reread, rereadMembers_of_arePlainMembers h.2]

theorem rereadItems_of_arePlain {vs : List Json} (h : arePlain vs = true) :
    rereadItems vs = vs := by
  match vs, h with
  | [], _ => rfl
  | _ :: _, h =>
    rw [arePlain, Bool.and_eq_true] at h
    rw [rereadItems, reread_of_isPlain h.1, rereadItems_of_arePlain h.2]

theorem rereadMembers_of_arePlainMembers {ms : List (String × Json)}
    (h : arePlainMembers ms = true) : rereadMembers ms = ms := by
  match ms, h with
  | [], _ => rfl
  | (_, _) :: _, h =>
    rw [arePlainMembers, Bool.and_eq_true] at h
    rw [rereadMembers, reread_of_isPlain h.1, rereadMembers_of_arePlainMembers h.2]

end

theorem run_number {l : Literal} {w : Json} (h : l.value? = some w) (room : Nat) (fs : List Frame)
    (ts : List Token) :
    Machine.run (.full room) ⟨fs, .value⟩ (.number l :: ts)
      = resume (.full room) ts (complete w fs) := by
  have hstep : Machine.step (.full room) ⟨fs, .value⟩ (.number l) = complete w fs := by
    simp [Machine.step, beginValue, Care.number?, h]
  rw [run_cons, hstep]

/-- A container is opened only where there is room for it. -/
theorem run_open {fs : List Frame} {room : Nat} {t : Token} (next : Machine)
    (hopen : beginValue (.full room) fs t
      = if Care.hasRoom (.full room) fs.length then .more next else .refused) (ts : List Token) :
    Machine.run (.full room) ⟨fs, .value⟩ (t :: ts) =
      if fs.length + 1 ≤ room then next.run (.full room) ts else .error .malformed := by
  have hstep : Machine.step (.full room) ⟨fs, .value⟩ t = beginValue (.full room) fs t := by
    cases t <;> rfl
  have hcare : Care.hasRoom (.full room) fs.length = decide (fs.length + 1 ≤ room) := rfl
  rw [run_cons, hstep, hopen, hcare]
  by_cases hroom : fs.length + 1 ≤ room
  · rw [if_pos hroom, if_pos (decide_eq_true hroom)]
    rfl
  · rw [if_neg hroom, if_neg (by simpa using hroom)]
    rfl

mutual

/-- A value that is not too deep is read whole and goes into the innermost open container. -/
theorem run_value (v : Json) (hv : v.isOrdered = true) {room : Nat} {fs : List Frame}
    (hfs : fs.length ≤ room) (ts : List Token) :
    Machine.run (.full room) ⟨fs, .value⟩ (tokensOf v ++ ts) =
      if fs.length + v.depth ≤ room then resume (.full room) ts (complete v.reread fs)
      else .error .malformed := by
  -- by the constructors; each container opened takes one of the room and one of the depth
  match v, hv with
  | .null, _ => exact (run_cons ..).trans (if_pos hfs).symm
  | .bool b, _ => exact (run_cons ..).trans (if_pos hfs).symm
  | .str s, _ => exact (run_cons ..).trans (if_pos hfs).symm
  | .int n, hv =>
    simp only [isOrdered, Bool.and_eq_true, decide_eq_true_eq] at hv
    exact (run_number (value?_literalOf hv.1 hv.2) ..).trans (if_pos hfs).symm
  | .float x, _ =>
    obtain ⟨l, -, -, htokens, hvalue⟩ := tokensOf_float x
    rw [htokens]
    exact (run_number hvalue ..).trans (if_pos hfs).symm
  | .arr items, hv =>
    rw [tokensOf, List.cons_append, run_open ⟨.arr [] :: fs, .itemOrClose⟩ rfl, reread,
      depth, List.append_assoc]
    by_cases hroom : fs.length + 1 ≤ room
    · rw [if_pos hroom]
      by_cases he : items = []
      · subst he
        exact (run_cons ..).trans (if_pos hroom).symm
      · have hrun := run_items items he [] hv hroom ts
        rw [Nat.add_right_comm] at hrun
        exact (run_itemOrClose he _ [] fs _).trans hrun
    · rw [if_neg hroom, if_neg (by omega)]
  | .obj members, hv =>
    simp only [isOrdered, Bool.and_eq_true, decide_eq_true_eq] at hv
    rw [tokensOf, List.cons_append, run_open ⟨.obj [] "" :: fs, .keyOrClose⟩ rfl, reread,
      depth, List.append_assoc]
    by_cases hroom : fs.length + 1 ≤ room
    · rw [if_pos hroom]
      by_cases he : members = []
      · subst he
        exact (run_cons ..).trans (if_pos hroom).symm
      · have hrun := run_members members he [] "" hv.1 hv.2 hroom ts
        rw [Nat.add_right_comm] at hrun
        exact (run_keyOrClose he _ [] "" fs _).trans hrun
    · rw [if_neg hroom, if_neg (by omega)]

theorem run_items (items : List Json) (he : items ≠ []) (acc : List Json) {room : Nat}
    (hv : areOrdered items = true) {fs : List Frame} (hfs : fs.length + 1 ≤ room)
    (ts : List Token) :
    Machine.run (.full room) ⟨.arr acc :: fs, .value⟩ (tokensOfItems items ++ .closeArr :: ts) =
      if fs.length + 1 + depthOfItems items ≤ room then
        resume (.full room) ts (complete (.arr (acc.reverse ++ rereadItems items)) fs)
      else .error .malformed := by
  match items, he, hv with
  | [v], _, hv =>
    rw [areOrdered, Bool.and_eq_true] at hv
    have hin : (Frame.arr acc :: fs).length ≤ room := hfs
    rw [tokensOfItems, run_value v hv.1 hin, depthOfItems, depthOfItems,
      Nat.max_zero, List.length_cons]
    refine ite_congr rfl (fun _ => ?_) fun _ => rfl
    rw [complete, resume, run_cons]
    simp [Machine.step, rereadItems]
  | v :: w :: ws, _, hv =>
    rw [areOrdered, Bool.and_eq_true] at hv
    have hin : (Frame.arr acc :: fs).length ≤ room := hfs
    have hcomma : Machine.step (.full room) ⟨.arr (v.reread :: acc) :: fs, .commaOrClose⟩ .comma
        = .more ⟨.arr (v.reread :: acc) :: fs, .value⟩ := rfl
    rw [tokensOfItems, List.append_assoc, run_value v hv.1 hin, depthOfItems,
      List.length_cons]
    by_cases hfirst : fs.length + 1 + v.depth ≤ room
    · rw [if_pos hfirst, complete, resume, List.cons_append, run_cons, hcomma, resume,
        run_items (w :: ws) (by simp) (v.reread :: acc) hv.2 hfs]
      refine ite_congr (propext ⟨fun h => by omega, fun h => by omega⟩) (fun _ => ?_) fun _ => rfl
      simp [rereadItems]
    · rw [if_neg hfirst, if_neg (by omega)]

/-- The members of an object that are still to come, all above those that were read. -/
theorem run_members (members : Fields) (he : members ≠ []) (acc : Fields) (key : String)
    {room : Nat} (hs : Keyed.Ascending (acc ++ members)) (hv : areOrderedMembers members = true)
    {fs : List Frame} (hfs : fs.length + 1 ≤ room) (ts : List Token) :
    Machine.run (.full room) ⟨.obj acc key :: fs, .key⟩
        (tokensOfMembers members ++ .closeObj :: ts) =
      if fs.length + 1 + depthOfMembers members ≤ room then
        resume (.full room) ts (complete (.obj (acc ++ rereadMembers members)) fs)
      else .error .malformed := by
  -- a key above all read so far is inserted at the end, so the order is kept
  match members, he, hs, hv with
  | [(k, v)], _, hs, hv =>
    rw [areOrderedMembers, Bool.and_eq_true] at hv
    have hin : (Frame.obj acc k :: fs).length ≤ room := hfs
    rw [tokensOfMembers, List.cons_append, List.cons_append, run_key,
      run_value v hv.1 hin, depthOfMembers, depthOfMembers, Nat.max_zero,
      List.length_cons]
    refine ite_congr rfl (fun _ => ?_) fun _ => rfl
    rw [complete, resume, run_cons, insert_of_ascending (v := v.reread) (ascending_of_value hs _)]
    rfl
  | (k, v) :: m :: ms, _, hs, hv =>
    rw [areOrderedMembers, Bool.and_eq_true] at hv
    have hin : (Frame.obj acc k :: fs).length ≤ room := hfs
    have hs' : Keyed.Ascending (acc ++ [(k, v.reread)] ++ m :: ms) := by
      rw [List.append_assoc]
      exact ascending_of_value hs _
    have hcomma : Machine.step (.full room)
          ⟨.obj (acc ++ [(k, v.reread)]) k :: fs, .commaOrClose⟩ .comma
        = .more ⟨.obj (acc ++ [(k, v.reread)]) k :: fs, .key⟩ := rfl
    rw [tokensOfMembers, List.cons_append, List.cons_append, run_key, List.append_assoc,
      run_value v hv.1 hin, depthOfMembers, List.length_cons]
    by_cases hfirst : fs.length + 1 + v.depth ≤ room
    · rw [if_pos hfirst, complete, resume, insert_of_ascending (v := v.reread) (ascending_of_value hs _),
        List.cons_append, run_cons, hcomma, resume,
        run_members (m :: ms) (by simp) (acc ++ [(k, v.reread)]) k hs' hv.2 hfs]
      refine ite_congr (propext ⟨fun h => by omega, fun h => by omega⟩) (fun _ => ?_) fun _ => rfl
      rw [List.append_assoc]
      rfl
    · rw [if_neg hfirst, if_neg (by omega)]

end

/-! ### Whole texts -/

theorem readValue_tokensOf_of_isOrdered {v : Json} (hv : v.isOrdered = true) (room : Nat)
    (ts : List Token) :
    readValue (.full room) (tokensOf v ++ ts) =
      if v.depth ≤ room then .ok (v.reread, ts) else .error .malformed := by
  have hnone : ([] : List Frame).length ≤ room := Nat.zero_le _
  have hrun := run_value v hv hnone ts
  rwa [List.length_nil, Nat.zero_add] at hrun

/-- An ordered value reads back, its binary64 numbers read anew, if it is not too deep. -/
theorem ofBytes?_bytes_of_isOrdered {v : Json} (hv : v.isOrdered = true) :
    ofBytes? v.bytes = if v.depth ≤ 127 then some v.reread else none := by
  have hread := readValue_tokensOf_of_isOrdered hv 127 []
  rw [List.append_nil] at hread
  rw [ofBytes?, bytes, Utf8.decode_encode, ofUnits?, tokens_write, Care.standard, hread]
  by_cases hd : v.depth ≤ 127
  · rw [if_pos hd, if_pos hd]
  · rw [if_neg hd, if_neg hd]

/-- A plain value that is not too deep reads back as it was. -/
theorem ofBytes?_bytes {v : Json} (hv : v.isPlain = true) (hd : v.depth ≤ 127) :
    ofBytes? v.bytes = some v := by
  rw [ofBytes?_bytes_of_isOrdered (isOrdered_of_isPlain hv), if_pos hd, reread_of_isPlain hv]

end AppBackend.Json
