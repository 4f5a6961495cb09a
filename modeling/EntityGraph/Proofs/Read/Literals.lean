import EntityGraph.Proofs.Filter.Unquoted
import EntityGraph.Proofs.Read.Worded

/-!
# Strings cannot change a query

Two requests that differ only in what their string literals say are both compiled or both refused. The
queries are read as the same tokens but for the strings, and the strings of each query are the string
literals of its request: no string can end early, go on into the query or get lost.
-/
namespace EntityGraph

open Sparql (Clause Query Token Unquoted tokens?)

namespace Filter

theorem run_map {α β : Type} (g : α → β) (x : FilterM α) (session : Session) :
    (g <$> x).run.run session = ((x.run.run session).1.map g, (x.run.run session).2) := by
  rw [ExceptT.run_map, StateT.run_map]
  rfl

end Filter

namespace Reader

variable {reader : Reader} {T : EntityType} {request : ReadRequest}

theorem compileFilter_emptied (reader : Reader) (owner : EntityType) (position : Position) (names : Naming)
    (f : Filter) : reader.compileFilter owner position names f.emptied =
      (reader.compileFilter owner position names f).map fun result => (result.1.emptied, result.2) := by
  dsimp only [compileFilter]
  rw [Filter.compile_emptied, Filter.run_map]
  rcases (f.compile ⟨reader.schema, reader.rules, reader.key⟩ ⟨owner.name, []⟩ position).run.run
    { names } with ⟨result, session⟩
  cases result with
  | error e => rfl
  | ok compiled =>
      simp only [Except.map, CompiledFilter.emptied]
      cases compiled.forest.placeAll reader.rules position session.names with
      | error e => rfl
      | ok placed => rfl

theorem compilePattern_emptied (reader : Reader) (owner : EntityType) (request : ReadRequest) :
    reader.compilePattern owner request.emptied =
      (reader.compilePattern owner request).map fun result =>
      (result.1, result.2.1.map Clause.emptied, result.2.2) := by
  unfold compilePattern
  rw [ReadRequest.effectiveFilter_emptied]
  simp only [ReadRequest.emptied]
  cases request.expand.compile reader.schema reader.rules owner startingPosition.1 startingPosition.2 with
  | error e => rfl
  | ok compiled =>
      cases request.effectiveFilter with
      | none => rfl
      | some f =>
          simp only [Option.map_some, compileFilter_emptied]
          cases reader.compileFilter owner startingPosition.1 compiled.2 f with
          | error e => rfl
          | ok result => rfl

theorem idFault?_emptied (request : ReadRequest) :
    (idFault? request.emptied).isNone = (idFault? request).isNone := by
  unfold idFault? ReadRequest.emptied
  cases request.byId with
  | none => rfl
  | some id =>
      simp only [Option.map_some, Filter.isLiteral_emptied]
      cases id.isLiteral <;> rfl

theorem compile_emptied (reader : Reader) (request : ReadRequest) :
    (∃ query query', reader.compile request = .ok query ∧ reader.compile request.emptied = .ok query' ∧
      query'.pattern = query.pattern ∧ query'.condition = query.condition.map Clause.emptied) ∨
    ∃ e e', reader.compile request = .error e ∧ reader.compile request.emptied = .error e' := by
  have hfault := idFault?_emptied request
  unfold compile
  simp only [show request.emptied.entitySet = request.entitySet from rfl, compilePattern_emptied]
  cases reader.schema.entitySet request.entitySet with
  | error e => exact Or.inr ⟨_, _, rfl, rfl⟩
  | ok owner =>
      cases hid : idFault? request with
      | some e =>
          obtain ⟨e', he'⟩ : ∃ e', idFault? request.emptied = some e' := by
            rw [hid] at hfault
            exact Option.isSome_iff_exists.mp (by simpa using hfault)
          simp only [he']
          exact Or.inr ⟨_, _, rfl, rfl⟩
      | none =>
          have hnone : idFault? request.emptied = none := by simpa [hid] using hfault
          simp only [hnone]
          cases reader.compilePattern owner request with
          | error e => exact Or.inr ⟨_, _, rfl, rfl⟩
          | ok result => exact Or.inl ⟨_, _, rfl, rfl, rfl, rfl⟩

/-- What a compiled query is made of has no quotes but those around the strings of the request. -/
theorem compile_unquoted (hs : reader.schema.Accepted) (hrules : reader.rules = Rule.builtin)
    {query : CompiledQuery} (h : reader.compile request = .ok query) :
    query.sparql = Query.text ⟨reader.schema.prefixes, query.pattern.group, query.condition.map Clause.text⟩ ∧
      Unquoted query.pattern.group.text ∧ (∀ c, query.condition = some c → c.Unquoted) ∧
      (query.condition.map Clause.strings).getD [] = request.strings := by
  obtain ⟨htext, hbody, hcondition, hstrings⟩ := compile_worded hs hrules (Vocabulary.unquoted_covers _)
    (fun _ _ => Filter.unquoted_numberText) h
  exact ⟨htext, (Pattern.worded_group hbody).unquoted_text, fun c hc => (hcondition c hc).unquoted, hstrings⟩

/-- The text is read as the tokens, from `SELECT` on. -/
def ReadsAs (reader : Reader) (sparql : String) (tokens : List Token) : Prop :=
  ∃ tail, sparql = Query.header reader.schema.prefixes ++ tail ∧ "SELECT".toList <+: tail.toList ∧
    tokens? tail = some tokens

theorem compile_readsAs (hs : reader.schema.Accepted) (hrules : reader.rules = Rule.builtin)
    {query : CompiledQuery} (h : reader.compile request = .ok query) :
    ∃ tokens, reader.ReadsAs query.sparql tokens ∧ tokens.filterMap Token.string? = request.strings ∧
      tokens.map Token.emptied =
        Sparql.tokensFrom [] (Query.pieces query.pattern.group (query.condition.map Clause.emptied)) := by
  obtain ⟨htext, hgroup, hcondition, hstrings⟩ := compile_unquoted hs hrules h
  obtain ⟨tokens, htokens, hfound, hothers⟩ :=
    @Query.tokens?_selection reader.schema.prefixes query.pattern.group query.condition hgroup hcondition
  refine ⟨tokens, ⟨_, ?_, Query.starts_selection _, htokens⟩, ?_, hothers⟩
  · rw [htext]
    exact Query.text_eq _
  · calc tokens.filterMap Token.string? = _ := hfound
      _ = request.strings := hstrings

/-- Requests that differ only in strings are both compiled or both refused; what is compiled is read as
the same tokens but for the strings, and these are the strings of the requests. -/
theorem compile_literals (hs : reader.schema.Accepted) (hrules : reader.rules = Rule.builtin)
    {first second : ReadRequest} (h : first.emptied = second.emptied) :
    (∃ query query' tokens tokens', reader.compile first = .ok query ∧ reader.compile second = .ok query' ∧
      reader.ReadsAs query.sparql tokens ∧ reader.ReadsAs query'.sparql tokens' ∧
      tokens.map Token.emptied = tokens'.map Token.emptied ∧
      tokens.filterMap Token.string? = first.strings ∧ tokens'.filterMap Token.string? = second.strings) ∨
    ∃ e e', reader.compile first = .error e ∧ reader.compile second = .error e' := by
  have hfirst := reader.compile_emptied first
  have hsecond := reader.compile_emptied second
  rw [← h] at hsecond
  rcases hfirst with ⟨query, common, hok, hcommon, hpattern, hcondition⟩ | ⟨e, failure, herror, hcommon⟩
  · rcases hsecond with ⟨query', common', hok', hcommon', hpattern', hcondition'⟩ | ⟨e', failure, -, hcommon'⟩
    · obtain rfl := Except.ok.inj (hcommon.symm.trans hcommon')
      obtain ⟨tokens, hreads, hstrings, hothers⟩ := compile_readsAs hs hrules hok
      obtain ⟨tokens', hreads', hstrings', hothers'⟩ := compile_readsAs hs hrules hok'
      refine Or.inl ⟨query, query', tokens, tokens', hok, hok', hreads, hreads', ?_, hstrings, hstrings'⟩
      rw [hothers, hothers', ← hpattern, ← hcondition, hpattern', hcondition']
    · simp [hcommon] at hcommon'
  · rcases hsecond with ⟨query', common', -, hcommon', -⟩ | ⟨e', failure', herror', -⟩
    · simp [hcommon] at hcommon'
    · exact Or.inr ⟨e, e', herror, herror'⟩

/-- A thing with an identifier and with a part that has a label. -/
def labelled (id label : String) : ReadRequest where
  entitySet := "Things"
  filter := some (.any ["Parts"] "x" (.eq (.property ["x", "Label"]) (.string label)))
  byId := some (.string id)

/-- A label that would end the string and the condition, if it were written as it is. -/
def breakout : String := "\") || true) \x7d #\n"

theorem compile_literals_sample :
    Sample.schema.Accepted ∧ (labelled "1" "a").emptied = (labelled "\\" breakout).emptied ∧
      ∃ query query' tokens tokens',
        Reader.compile { schema := Sample.schema } (labelled "1" "a") = .ok query ∧
        Reader.compile { schema := Sample.schema } (labelled "\\" breakout) = .ok query' ∧
        ReadsAs { schema := Sample.schema } query.sparql tokens ∧
        ReadsAs { schema := Sample.schema } query'.sparql tokens' ∧
        tokens.map Token.emptied = tokens'.map Token.emptied ∧ tokens.filterMap Token.string? = ["1", "a"] ∧
        tokens'.filterMap Token.string? = ["\\", breakout] := by
  have hsame : (labelled "1" "a").emptied = (labelled "\\" breakout).emptied := rfl
  refine ⟨Sample.accepted, hsame, ?_⟩
  rcases @compile_literals { schema := Sample.schema } Sample.accepted rfl _ _ hsame with hread
    | ⟨e, -, herror, -⟩
  · exact hread
  · obtain ⟨query, hok⟩ : ∃ query, Reader.compile { schema := Sample.schema }
      (labelled "1" "a") = .ok query :=
      ⟨_, rfl⟩
    simp [hok] at herror

end Reader
end EntityGraph
