import EntityGraph.Proofs.Filter.Parallel
import EntityGraph.Proofs.Read.Requests
import EntityGraph.Proofs.Read.Unfiltered

/-!
# Bound variables and scope keys do not show

What a request is compiled to depends neither on how the bound variables of its filter are called nor on
the keys by which scopes are told apart. Two requests whose filters are the same up to the names of bound
variables, compiled with any two supplies of different keys, are both refused or both accepted, and then
they have the same query, the same number of variables and the same variable for every property.
-/
namespace EntityGraph

/-- The same query, to be decoded through the same variables. -/
structure CompiledQuery.Alike (query query' : CompiledQuery) : Prop where
  pattern : query.pattern = query'.pattern
  condition : query.condition = query'.condition
  sparql : query.sparql = query'.sparql
  names : query.names.Same query'.names
  root : query.root = query'.root
  entityType : query.entityType = query'.entityType
  expand : query.expand = query'.expand

namespace Sample

def unlabelled (lambda : String) : Filter :=
  .any ["Parts"] "x" (.and (.any ["x", "Parts"] lambda (.eq (.property [lambda, "Label"]) .null))
    (.eq (.property ["x", "WholeId"]) (.property [idName])))

def reading (filter : Filter) : ReadRequest :=
  ⟨"Things", .cons "Whole" .nil .nil, some filter, none⟩

def otherKeys (i : Nat) : ScopeKey := 2 * i + 5

theorem otherKeys_injective : Function.Injective otherKeys := by
  intro i j hij
  have heq : (2 * i + 5 : Nat) = 2 * j + 5 := hij
  omega

theorem reading_ok :
    ∃ query, Reader.compile ⟨schema, Rule.builtin, id⟩ (reading (unlabelled "y")) = .ok query := by
  have hformed : (reading (unlabelled "y")).WellFormed schema := by
    refine ⟨thing, rfl, nofun, ?_, ?_⟩
    · exact (ExpandTree.fault?_eq_none_iff accepted List.mem_cons_self _).mp rfl
    · rintro filter ⟨⟩
      exact ⟨_, thing, rfl, rfl, rfl, ⟨_, thing, rfl, rfl, rfl, ⟨_, rfl, rfl⟩, trivial⟩,
        ⟨_, rfl, rfl⟩, _, rfl, rfl⟩
  obtain ⟨-, query, -, -, hok, -⟩ | ⟨hnot, -⟩ := @Reader.compile_cases ⟨schema, Rule.builtin, id⟩ accepted rfl
    Function.injective_id (reading (unlabelled "y"))
  · exact ⟨query, hok⟩
  · exact absurd hformed hnot

end Sample

namespace Reader

variable {schema : Schema} {key key' : Nat → ScopeKey} {T : EntityType} {names : Naming} {f f' : Filter}

theorem together_start (key key' : Nat → ScopeKey) (hT : T ∈ schema.types)
    (hnames : startingPosition.2.Keeps names) :
    Filter.Together schema key key' [] ⟨T.name, []⟩ ⟨T.name, []⟩ startingPosition.1 startingPosition.1 T
      (fun _ => none) (fun _ => none) { names } { names } where
  left := ready_start _ hT hnames
  right := ready_start _ hT hnames
  place := rfl
  same := .refl names
  agree name name' hname found := by
    obtain rfl : name = name' := hname
    exact Iff.rfl
  lambdas _ := rfl
  free hname _ := hname

variable (hs : schema.Accepted) (hkey : Function.Injective key) (hkey' : Function.Injective key')

include hs hkey hkey'

theorem compileFilter_alpha (hT : T ∈ schema.types) (hnames : startingPosition.2.Keeps names)
    (hf : Filter.Alpha [] f f') :
    (∃ clause body after after',
      compileFilter ⟨schema, Rule.builtin, key⟩ T startingPosition.1 names f = .ok (clause, body, after) ∧
      compileFilter ⟨schema, Rule.builtin, key'⟩ T startingPosition.1 names f' = .ok (clause, body, after') ∧
      after.Same after') ∨
    ∃ e e', compileFilter ⟨schema, Rule.builtin, key⟩ T startingPosition.1 names f = .error e ∧
      compileFilter ⟨schema, Rule.builtin, key'⟩ T startingPosition.1 names f' = .error e' ∧
      (f = f' → e = e') := by
  have hstart := together_start key key' hT hnames
  have hruns := (Filter.runs_compile hs hkey hkey' hf hstart).and_ends
    (Filter.decides_compile hs rfl hkey f hstart.left) (Filter.decides_compile hs rfl hkey' f' hstart.right)
  unfold Filter.Runs at hruns
  unfold compileFilter
  split at hruns
  · next compiled session compiled' session' hrun hrun' =>
      obtain ⟨⟨halike, hsame⟩, ⟨hgrows, hmade, -⟩, hgrows', -⟩ := hruns
      have hend := hstart.grows hgrows hgrows' hsame
      have hplaced := halike.forest.place (.refl _) (.refl _) hsame hend.agree
        (hmade.resolves hend.left.bound) startingPosition.1.place
      obtain ⟨body, last, last', hbody, hbody', hlast⟩ := hplaced.placeAll
      refine Or.inl ⟨compiled.clause, body, last, last', ?_, ?_, hlast⟩
      · simp only [hrun]
        rw [hbody]
      · simp only [hrun', halike.clause]
        rw [hbody']
  · next e session e' session' hrun hrun' =>
      refine Or.inr ⟨.filter e, .filter e', ?_, ?_, fun heq => by rw [hruns heq]⟩
      · simp only [hrun]
      · simp only [hrun']
  · exact hruns.elim

theorem compilePattern_alpha (hT : T ∈ schema.types) (request request' : ReadRequest)
    (hexpand : request'.expand = request.expand)
    (h : Option.Rel (Filter.Alpha []) request.effectiveFilter request'.effectiveFilter) :
    (∃ pattern condition after after',
      compilePattern ⟨schema, Rule.builtin, key⟩ T request = .ok (pattern, condition, after) ∧
      compilePattern ⟨schema, Rule.builtin, key'⟩ T request' = .ok (pattern, condition, after') ∧
      after.Same after') ∨
    ∃ e e', compilePattern ⟨schema, Rule.builtin, key⟩ T request = .error e ∧
      compilePattern ⟨schema, Rule.builtin, key'⟩ T request' = .error e' ∧
      (request.effectiveFilter = request'.effectiveFilter → e = e') := by
  unfold compilePattern
  simp only [hexpand]
  cases hcompile : request.expand.compile schema Rule.builtin T startingPosition.1 startingPosition.2 with
  | error e => exact Or.inr ⟨.expand e, .expand e, rfl, rfl, fun _ => rfl⟩
  | ok expanded =>
      obtain ⟨base, before⟩ := expanded
      have hbefore : startingPosition.2.Keeps before := by
        obtain ⟨shape, forest, -, -, -, rfl, -⟩ := ExpandTree.compile_ok hcompile
        exact Forest.place_keeps
      generalize request.effectiveFilter = filter at h ⊢
      generalize request'.effectiveFilter = filter' at h ⊢
      cases h with
      | none => exact Or.inl ⟨base, none, before, before, rfl, rfl, .refl before⟩
      | @some f f' hf =>
          obtain ⟨clause, body, after, after', hok, hok', hsame⟩ | ⟨e, e', herror, herror', heq⟩ :=
            compileFilter_alpha hs hkey hkey' hT hbefore hf
          · simp only [hok, hok']
            exact Or.inl ⟨_, _, after, after', rfl, rfl, hsame⟩
          · simp only [herror, herror']
            exact Or.inr ⟨e, e', rfl, rfl, fun hfilter => heq (Option.some.inj hfilter)⟩

theorem compile_alpha (request : ReadRequest) (filter : Option Filter)
    (h : Option.Rel (Filter.Alpha []) request.effectiveFilter ({ request with filter } :
      ReadRequest).effectiveFilter) :
    (∃ query query', compile ⟨schema, Rule.builtin, key⟩ request = .ok query ∧
      compile ⟨schema, Rule.builtin, key'⟩ { request with filter } = .ok query' ∧ query.Alike query') ∨
    ∃ e e', compile ⟨schema, Rule.builtin, key⟩ request = .error e ∧
      compile ⟨schema, Rule.builtin, key'⟩ { request with filter } = .error e' ∧
      (request.filter = filter → e = e') := by
  unfold compile
  cases hset : schema.entitySet request.entitySet with
  | error e => exact Or.inr ⟨.schema e, .schema e, rfl, rfl, fun _ => rfl⟩
  | ok T =>
      simp only [show idFault? { request with filter } = idFault? request from rfl]
      cases idFault? request with
      | some e => exact Or.inr ⟨.filter e, .filter e, rfl, rfl, fun _ => rfl⟩
      | none =>
          obtain ⟨pattern, condition, after, after', hok, hok', hsame⟩ | ⟨e, e', herror, herror', heq⟩ :=
            compilePattern_alpha hs hkey hkey' (hs.entitySet hset) request { request with filter } rfl h
          · simp only [hok, hok']
            exact Or.inl ⟨_, _, rfl, rfl, rfl, rfl, rfl, hsame, rfl, rfl, rfl⟩
          · simp only [herror, herror']
            refine Or.inr ⟨e, e', rfl, rfl, ?_⟩
            rintro rfl
            exact heq rfl

/-- Renaming the bound variable of one `any` changes nothing: both requests are refused, or both are
accepted with the same query and the same variables. -/
theorem compile_renamed (request : ReadRequest) (hfilter : request.filter = some f) (h : f.Renamed f') :
    (∃ query query', compile ⟨schema, Rule.builtin, key⟩ request = .ok query ∧
      compile ⟨schema, Rule.builtin, key'⟩ { request with filter := some f' } = .ok query' ∧
      query.Alike query') ∨
    ∃ e e', compile ⟨schema, Rule.builtin, key⟩ request = .error e ∧
      compile ⟨schema, Rule.builtin, key'⟩ { request with filter := some f' } = .error e' := by
  have hf : Filter.Alpha [] f f' := h.alpha .free
  have heffective : Option.Rel (Filter.Alpha []) request.effectiveFilter
      ({ request with filter := some f' } : ReadRequest).effectiveFilter := by
    unfold ReadRequest.effectiveFilter
    rw [hfilter]
    cases request.byId with
    | none => exact .some hf
    | some id => exact .some (.and (Filter.alpha_refl .free _) (.parentheses hf))
  obtain hok | ⟨e, e', herror, herror', -⟩ := compile_alpha hs hkey hkey' request (some f') heffective
  · exact Or.inl hok
  · exact Or.inr ⟨e, e', herror, herror'⟩

omit hs hkey hkey' in
/-- The inner variable may be called like the outer one, which its predicate does not use. -/
theorem compile_renamed_sample :
    Sample.schema.Accepted ∧ Function.Injective (id : Nat → ScopeKey) ∧ Function.Injective Sample.otherKeys ∧
      (Sample.unlabelled "y").Renamed (Sample.unlabelled "x") ∧ ∃ query query',
      compile ⟨Sample.schema, Rule.builtin, id⟩ (Sample.reading (Sample.unlabelled "y")) = .ok query ∧
      compile ⟨Sample.schema, Rule.builtin, Sample.otherKeys⟩ (Sample.reading (Sample.unlabelled "x")) =
        .ok query' ∧ query.Alike query' := by
  have hrenamed : (Sample.unlabelled "y").Renamed (Sample.unlabelled "x") := by
    refine .inside (.andLeft (.here ⟨?_, trivial⟩))
    rintro name ⟨⟩
    decide
  obtain ⟨query, query', h, h', halike⟩ | ⟨e, -, herror, -⟩ := compile_renamed Sample.accepted
    Function.injective_id Sample.otherKeys_injective (Sample.reading (Sample.unlabelled "y")) rfl hrenamed
  · exact ⟨Sample.accepted, Function.injective_id, Sample.otherKeys_injective, hrenamed, query, query',
      h, h', halike⟩
  · obtain ⟨query, h⟩ := Sample.reading_ok
    cases h.symm.trans herror

/-- The keys of scopes do not show: with any two supplies of different keys a request is refused for the
same reason, or accepted with the same query and the same variables. -/
theorem compile_anySupply (request : ReadRequest) :
    (∃ query query', compile ⟨schema, Rule.builtin, key⟩ request = .ok query ∧
      compile ⟨schema, Rule.builtin, key'⟩ request = .ok query' ∧ query.Alike query') ∨
    ∃ e, compile ⟨schema, Rule.builtin, key⟩ request = .error e ∧
      compile ⟨schema, Rule.builtin, key'⟩ request = .error e := by
  have heffective : Option.Rel (Filter.Alpha []) request.effectiveFilter request.effectiveFilter := by
    cases request.effectiveFilter with
    | none => exact .none
    | some f => exact .some (Filter.alpha_refl .free f)
  obtain hok | ⟨e, e', herror, herror', heq⟩ :=
    compile_alpha hs hkey hkey' request request.filter heffective
  · exact Or.inl hok
  · obtain rfl := heq rfl
    exact Or.inr ⟨e, herror, herror'⟩

omit hs hkey hkey' in
/-- Consecutive keys, and keys between which others are drawn. -/
theorem compile_anySupply_sample :
    Sample.schema.Accepted ∧ Function.Injective (id : Nat → ScopeKey) ∧ Function.Injective Sample.otherKeys ∧
      ∃ query query',
      compile ⟨Sample.schema, Rule.builtin, id⟩ (Sample.reading (Sample.unlabelled "y")) = .ok query ∧
      compile ⟨Sample.schema, Rule.builtin, Sample.otherKeys⟩ (Sample.reading (Sample.unlabelled "y")) =
        .ok query' ∧ query.Alike query' := by
  obtain ⟨query, query', h, h', halike⟩ | ⟨e, herror, -⟩ := compile_anySupply Sample.accepted
    Function.injective_id Sample.otherKeys_injective (Sample.reading (Sample.unlabelled "y"))
  · exact ⟨Sample.accepted, Function.injective_id, Sample.otherKeys_injective, query, query', h, h', halike⟩
  · obtain ⟨query, h⟩ := Sample.reading_ok
    cases h.symm.trans herror

end Reader
end EntityGraph
