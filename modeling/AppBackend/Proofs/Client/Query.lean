import AppBackend.Proofs.Server.Parameters

/-!
# Queries read back

The query of a request is read back by taking it apart: at every `&`, then at the first `=`, and by
percent-decoding both halves. Main statement: `url_tells_parameters`, the target of a request is the
place that the draft names, with a query that reads back as the parameters that have both halves.
-/

namespace AppBackend

/-! ### Reading -/

/-- The text that a percent-coded text stands for; none if its octets are no text. -/
def Percent.decodeText? (cs : List Char) : Option String :=
  Utf8.text? (Percent.decode (Utf8.encode cs))

theorem Percent.decodeText?_encode (s : String) : decodeText? (encode s) = some s := by
  rw [decodeText?, decode_encode, Utf8.text?_ofString]

namespace Draft

/-- The halves of a piece, around its first `=`. -/
def readPair? (piece : List Char) : Option (String × String) := do
  let (name, value) ← Text.cut? '=' piece
  return (← Percent.decodeText? name, ← Percent.decodeText? value)

/-- The pairs of a query without its question mark. -/
def readPairs? (text : List Char) : Option Pairs := (Text.split '&' text).mapM readPair?

theorem readPair?_paramText (p : String × String) : readPair? (paramText p) = some p := by
  have hname : '=' ∉ Percent.encode p.1 := Percent.not_mem_encode (by decide) (by decide) p.1
  rw [readPair?, paramText, Text.cut?_append _ hname]
  simp only [bind, Option.bind, Percent.decodeText?_encode, pure]

theorem mapM_readPair?_paramText (ps : Pairs) :
    (ps.map paramText).mapM readPair? = some ps := by
  induction ps with
  | nil => rfl
  | cons p ps ih =>
    rw [List.map_cons, List.mapM_cons, readPair?_paramText, ih]
    rfl

theorem readPairs?_joined {ps : Pairs} (h : ps ≠ []) :
    readPairs? (Text.joined '&' (ps.map paramText)) = some ps := by
  have hsplit : Text.split '&' (Text.joined '&' (ps.map paramText)) = ps.map paramText := by
    refine Text.split_joined (by simpa using h) fun t ht => ?_
    obtain ⟨p, -, rfl⟩ := List.mem_map.1 ht
    exact Form.not_mem_paramText (by decide) (by decide) (by decide) p
  rw [readPairs?, hsplit, mapM_readPair?_paramText]

/-! ### The query -/

theorem query_of_filter_eq_nil {ps : Pairs} (h : ps.filter isFull = []) : query ps = [] := by
  rw [query, h]

theorem query_of_filter_ne_nil {ps : Pairs} (h : ps.filter isFull ≠ []) :
    query ps = '?' :: Text.joined '&' ((ps.filter isFull).map paramText) := by
  unfold query
  split
  · rename_i hnil
    exact absurd hnil h
  · rfl

theorem query_eq_nil_iff {ps : Pairs} : query ps = [] ↔ ps.filter isFull = [] := by
  refine ⟨fun h => Decidable.byContradiction fun hne => ?_, query_of_filter_eq_nil⟩
  rw [query_of_filter_ne_nil hne] at h
  cases h

theorem filter_isFull_eq_nil_iff {ps : Pairs} :
    ps.filter isFull = [] ↔ ∀ p ∈ ps, p.1 = "" ∨ p.2 = "" := by
  rw [List.filter_eq_nil_iff]
  refine forall₂_congr fun p _ => ?_
  rw [isFull_iff, Decidable.not_and_iff_not_or_not, Decidable.not_not, Decidable.not_not]

/-- Equal queries come of parameters that differ in incomplete pairs at most. -/
theorem query_eq_query_iff {ps qs : Pairs} :
    query ps = query qs ↔ ps.filter isFull = qs.filter isFull := by
  constructor
  · intro h
    by_cases hps : ps.filter isFull = []
    · rw [query_of_filter_eq_nil hps, eq_comm, query_eq_nil_iff] at h
      rw [hps, h]
    · have hqs : qs.filter isFull ≠ [] := by
        rw [ne_eq, ← query_eq_nil_iff, ← h, query_eq_nil_iff]
        exact hps
      rw [query_of_filter_ne_nil hps, query_of_filter_ne_nil hqs, List.cons.injEq] at h
      have hread := congrArg readPairs? h.2
      rw [readPairs?_joined hps, readPairs?_joined hqs] at hread
      exact Option.some.inj hread
  · intro h
    rw [query, h, query]

/-! ### The target -/

/-- For a draft that lacks nothing and any parameters: the target is the endpoint, closed by a
slash, then `1/`, the tenant, the path and the query; the query is empty just when every pair lacks
a half, and otherwise reads back as the pairs with both halves, so that other parameters have the
same query just when these pairs are the same. -/
theorem url_tells_parameters {d : Draft} (hd : d.missing? = none) (ps : Pairs) :
    ∃ r, Draft.request { d with params := ps } = .ok r ∧
      r.url = d.credentials.endpoint
        ++ (if d.credentials.endpoint.toList.getLast? = some '/' then "" else "/")
        ++ "1/" ++ d.credentials.tenant ++ d.path ++ String.ofList (query ps) ∧
      (query ps = [] ↔ ∀ p ∈ ps, p.1 = "" ∨ p.2 = "") ∧
      ((∃ p ∈ ps, p.1 ≠ "" ∧ p.2 ≠ "") →
        ∃ text, query ps = '?' :: text ∧ readPairs? text = some (ps.filter isFull)) ∧
      ∀ qs, query ps = query qs ↔ ps.filter isFull = qs.filter isFull := by
  have hrequest : Draft.request { d with params := ps } = .ok (build { d with params := ps }) := by
    have hmissing : missing? { d with params := ps } = none := hd
    rw [request, hmissing]
  refine ⟨build { d with params := ps }, hrequest, rfl, ?_, ?_, ?_⟩
  · exact query_eq_nil_iff.trans filter_isFull_eq_nil_iff
  · rintro ⟨p, hp, hname, hvalue⟩
    have hfull : ps.filter isFull ≠ [] := by
      intro hnil
      rcases filter_isFull_eq_nil_iff.1 hnil p hp with h | h
      · exact hname h
      · exact hvalue h
    exact ⟨_, query_of_filter_ne_nil hfull, readPairs?_joined hfull⟩
  · exact fun qs => query_eq_query_iff

/-- Separators, signs and a character of two octets in the pairs, one pair twice, one incomplete. -/
theorem url_tells_parameters_of_signs :
    let d : Draft :=
      { credentials := ⟨"http://host/api", "t", "a", "k", ""⟩, sessionToken := "", options := {},
        path := "/objects/b" }
    let ps : Pairs := [("a&b", "=%+é"), ("c", ""), ("", "="), ("a&b", "=%+é"), ("a", "b&a=b")]
    d.missing? = none ∧ ∃ r text, Draft.request { d with params := ps } = .ok r ∧
      r.url = "http://host/api" ++ "/" ++ "1/" ++ "t" ++ "/objects/b"
        ++ String.ofList ('?' :: text) ∧
      readPairs? text = some [("a&b", "=%+é"), ("a&b", "=%+é"), ("a", "b&a=b")] := by
  intro d ps
  have hd : d.missing? = none := by decide
  obtain ⟨r, hr, hurl, -, hread, -⟩ := url_tells_parameters hd ps
  obtain ⟨text, hquery, htext⟩ := hread ⟨("a&b", "=%+é"), by decide, by decide, by decide⟩
  have hopen : d.credentials.endpoint.toList.getLast? ≠ some '/' := by decide
  refine ⟨hd, r, text, hr, ?_, htext.trans (by decide)⟩
  rw [hurl, if_neg hopen, hquery]

end Draft
end AppBackend
