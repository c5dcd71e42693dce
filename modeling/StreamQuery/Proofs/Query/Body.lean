import StreamQuery.Proofs.Codec.Decoding
import StreamQuery.Proofs.Query.WellFormed

/-! # The text of a query body

A graph keeps the body of a query as text. The text is read as that body if its runs of tokens are told
apart and if something marks where its result ends. The declaration of a window marks that end as well,
but it is not part of the text.
-/

namespace StreamQuery

open Text Token QueryReader

/-- A form of result that is read without an operator is read as well where none is written. -/
theorem QueryReader.ResultReading.unspoken {form : ResultForm} {operator : OutputOperator}
    (h : ResultReading form operator)
    (hform : ∀ projection, form = .select none projection → ∀ t ∈ projection.head?, ¬ t.isOperator) :
    ResultReading form .unspecified := by
  cases h with
  | @select modifier projection _ hne hinner hmodifier hplain hoperator =>
      refine .select hne hinner hmodifier hplain fun _ t ht => ?_
      cases modifier with
      | none => exact hform projection rfl t ht
      | some token =>
          cases ht
          exact not_isOperator_of_isModifier (hmodifier t rfl)
  | template hbalanced => exact .template hbalanced
  | construct => exact .construct
  | ask => exact .ask
  | describe hne hinner => exact .describe hne hinner

/-- A body with a clause or nothing at all behind its result. -/
def QueryBody.Delimited (body : QueryBody) : Prop :=
  body.pattern = none → body.dataset = [] → body.modifiers = []

namespace Query

variable {text : String} {query : Query}

theorem parse_eq_ok_iff : parse text = .ok query ↔ read text = .ok query ∧ query.isWellFormed := by
  unfold parse
  constructor
  · intro h
    obtain ⟨found, hread, hcheck⟩ := bind_eq_ok_iff.mp h
    split at hcheck
    · next hwell =>
      cases hcheck
      exact ⟨hread, hwell⟩
    · cases hcheck
  · rintro ⟨hread, hwell⟩
    exact bind_eq_ok_iff.mpr ⟨query, hread, if_pos hwell⟩

/-- Without its windows and its output stream, a query that was read is a query that can be read. -/
theorem Reading.ofBody (h : query.Reading) (hform : ResultReading query.body.form .unspecified)
    (hdelimited : query.body.Delimited) : (Query.ofBody query.prologue query.body).Reading where
  prologue := h.prologue
  output stream hstream := absurd hstream (Option.not_mem_none stream)
  form := ⟨.unspecified, hform, fun _ => rfl⟩
  operator _ _ := rfl
  dataset := h.dataset
  declared _ hwindow := absurd hwindow List.not_mem_nil
  names := rfl
  pattern := h.pattern
  missing hpattern :=
    ⟨(h.missing hpattern).1, (h.missing hpattern).2.1, fun hdataset _ => hdelimited hpattern hdataset⟩
  lexical := h.lexical

/-- The text of a body is the whole text of the query that has nothing but the body. -/
theorem nativeText_ofBody (query : Query) :
    (ofBody query.prologue query.body).nativeText = query.bodyText := by
  have hkeyword : (if (ofBody query.prologue query.body).resultHasOperator then
      OutputOperator.unspecified.keyword? else none) = none := by
    split <;> rfl
  have hregister : (ofBody query.prologue query.body).registerMarks = [] := rfl
  rw [nativeText, hregister, List.append_nil]
  dsimp only [ofBody] at hkeyword ⊢
  rw [hkeyword]
  rfl

/-- A query and its body have the same base query. -/
theorem isWellFormed_ofBody (query : Query) :
    (ofBody query.prologue query.body).isWellFormed = query.isWellFormed := rfl

/-- What is known of a query that was parsed: it can be read again, also without what concerns streams. -/
theorem reading_of_parse (h : parse text = .ok query) :
    query.Reading ∧ ResultReading query.body.form .unspecified := by
  obtain ⟨hread, hwell⟩ := parse_eq_ok_iff.mp h
  have hprologue := fromTokens_of_read hread
  have hreading := reading_of_read hread (plain_of_isWellFormed hwell hprologue)
  obtain ⟨spoken, hspoken, -⟩ := hreading.form
  exact ⟨hreading, hspoken.unspoken fun projection hform =>
    not_isOperator_of_isWellFormed hwell hprologue hform⟩

/-- The text of a body is read as that body, just if nothing behind its result can be taken for a part
of it. -/
theorem parse_bodyText_iff (h : parse text = .ok query)
    (hruns : ∀ ts ∈ query.body.runs, Separable ts) :
    parse query.bodyText = .ok (.ofBody query.prologue query.body) ↔ query.body.Delimited := by
  obtain ⟨hread, hwell⟩ := parse_eq_ok_iff.mp h
  obtain ⟨hreading, hform⟩ := reading_of_parse h
  constructor
  · intro hbody hpattern hdataset
    obtain ⟨hagain, -⟩ := reading_of_parse hbody
    exact (hagain.missing hpattern).2.2 hdataset rfl
  · intro hdelimited
    have hbody := hreading.ofBody hform hdelimited
    have hnative := tokens?_nativeText hbody.prologue
      (fun stream hstream => (hbody.output stream hstream).lexical)
      (fun window hwindow => hbody.windows window hwindow (absurd hwindow List.not_mem_nil))
      hbody.lexical hruns
    rw [nativeText_ofBody] at hnative
    refine parse_eq_ok_iff.mpr ⟨?_, (isWellFormed_ofBody query).trans hwell⟩
    exact bind_eq_ok_iff.mpr ⟨_, mapError_eq_ok_iff.mpr (Token.read_eq_ok_iff.mpr hnative),
      readQuery_nativeTokens hbody fun window hwindow => absurd hwindow List.not_mem_nil⟩

/-- A parsed query comes back from its graph, if its text does. -/
theorem onlyQuery_of_parse (h : parse text = .ok query)
    (hbody : parse query.bodyText = .ok (.ofBody query.prologue query.body))
    {supply : Nat → String} (hsupply : Function.Injective supply) :
    ∃ windows : List Window,
      (query.graphWith supply).onlyQuery = .ok { query with windows := windows } ∧
        windows.Perm query.windows := by
  obtain ⟨hreading, -⟩ := reading_of_parse h
  obtain ⟨e, hsound, hquery, hgraph⟩ := Encoding.encoded_query hsupply query
  obtain ⟨windows, hread, hperm⟩ := hquery.query_eq hsound hreading.nodup hbody
  refine ⟨windows, ?_, hperm⟩
  rw [← hgraph, Graph.onlyQuery, hquery.queryNodes_eq hsound]
  exact hread

/-- The text in a graph is read as the body of the query, just if the body has a clause or nothing at
all behind its result; then the graph is read as the query. -/
theorem graph_keeps_body (h : parse text = .ok query) (hruns : ∀ ts ∈ query.body.runs, Separable ts)
    {supply : Nat → String} (hsupply : Function.Injective supply) :
    (parse query.bodyText = .ok (.ofBody query.prologue query.body) ↔ query.body.Delimited) ∧
      (query.body.Delimited → ∃ windows : List Window,
        (query.graphWith supply).onlyQuery = .ok { query with windows := windows } ∧
          windows.Perm query.windows ∧ sameAs { query with windows := windows } query) := by
  refine ⟨parse_bodyText_iff h hruns, fun hdelimited => ?_⟩
  obtain ⟨windows, hread, hperm⟩ :=
    onlyQuery_of_parse h ((parse_bodyText_iff h hruns).mpr hdelimited) hsupply
  exact ⟨windows, hread, hperm, sameAs_of_perm hperm⟩

theorem graph_keeps_body_hourly :
    parse hourlyText = .ok hourly ∧ (∀ ts ∈ hourly.body.runs, Separable ts) ∧
      Function.Injective Encoding.numbered ∧
      (parse hourly.bodyText = .ok (.ofBody hourly.prologue hourly.body) ↔ hourly.body.Delimited) ∧
      (hourly.body.Delimited → ∃ windows : List Window,
        (hourly.graphWith Encoding.numbered).onlyQuery = .ok { hourly with windows := windows } ∧
          windows.Perm hourly.windows ∧ sameAs { hourly with windows := windows } hourly) := by
  have hparse : parse hourlyText = .ok hourly := by decide +kernel
  exact ⟨hparse, hourly_runs, Encoding.numbered_injective,
    graph_keeps_body hparse hourly_runs Encoding.numbered_injective⟩

/-- Behind the declaration of a window, modifiers are no targets; without it they are. -/
example : ((parse ("DESCRIBE <http://a/x> FROM NAMED WINDOW <http://a/w> ON <http://a/s> [RANGE PT1H] " ++
    "LIMIT 5")).toOption.map fun query =>
      (query.body.form, query.body.modifiers, (parse query.bodyText).toOption.map (·.body.form))) =
    some (.describe [.iri "http://a/x"], [.word "LIMIT", .number "5"],
      some (.describe [.iri "http://a/x", .word "LIMIT", .number "5"])) := by decide +kernel

end Query

end StreamQuery
