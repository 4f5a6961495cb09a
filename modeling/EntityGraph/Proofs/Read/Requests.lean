import EntityGraph.Proofs.Expand.Fits
import EntityGraph.Proofs.Filter.WellFormed
import EntityGraph.Proofs.Read.Conforms
import EntityGraph.Read.Compile

/-!
# Requests that can be read

A request is well formed when its entity set exists, its identifier is a literal and a finite one if
it is a number, its expand tree fits the type of the set, and its filter is well formed for that type.
These are exactly the requests that are compiled. All others are refused as bad requests: compiling
never fails for a reason of its own.
-/
namespace EntityGraph

/-- The request makes sense for the schema. -/
def ReadRequest.WellFormed (schema : Schema) (request : ReadRequest) : Prop :=
  ∃ T, schema.entitySet request.entitySet = .ok T ∧
    (∀ id, request.byId = some id →
      id.isLiteral = true ∧ ∀ value, id = .number value → value.isFinite = true) ∧
    request.expand.Fits schema T ∧
    ∀ filter, request.filter = some filter → filter.WellFormed schema T fun _ => none

namespace Filter

variable {schema : Schema} {T : EntityType}

theorem wellFormed_literal {id : Filter} (h : id.isLiteral = true) (schema : Schema) (T : EntityType)
    (lambda : String → Option EntityType) : id.WellFormed schema T lambda ↔ ∀ value, id = .number value →
    value.isFinite = true := by
  cases id with
  | number value => simp [WellFormed]
  | string value => simp [WellFormed]
  | boolean value => simp [WellFormed]
  | null => simp [WellFormed]
  | _ => simp [isLiteral] at h

theorem wellFormed_hasId (hs : schema.Accepted) (hT : T ∈ schema.types) {id : Filter} :
    (hasId id).WellFormed schema T (fun _ => none) ↔ id.WellFormed schema T fun _ => none := by
  obtain ⟨i, -, -, hi, he, -⟩ := hs.id hT
  have hproperty : (property [idName]).WellFormed schema T fun _ => none := ⟨i, hi, he⟩
  unfold hasId
  exact and_iff_right hproperty

end Filter

namespace Reader

variable {reader : Reader} {T : EntityType} {request : ReadRequest}

theorem effectiveFilter_wellFormed {schema : Schema} (hs : schema.Accepted) (hT : T ∈ schema.types)
    (hid : idFault? request = none) :
    (∀ f, request.effectiveFilter = some f → f.WellFormed schema T fun _ => none) ↔
      (∀ id, request.byId = some id →
        id.isLiteral = true ∧ ∀ value, id = .number value → value.isFinite = true) ∧
      ∀ f, request.filter = some f → f.WellFormed schema T fun _ => none := by
  unfold ReadRequest.effectiveFilter
  unfold idFault? at hid
  cases hby : request.byId with
  | none => simp
  | some id =>
      have hliteral : id.isLiteral = true := by
        by_contra hnot
        simp [hby, hnot] at hid
      have hfinite := Filter.wellFormed_literal hliteral schema T fun _ => none
      cases hfilter : request.filter with
      | none => simp [Filter.wellFormed_hasId hs hT, hliteral, hfinite]
      | some f => simp [Filter.WellFormed, Filter.wellFormed_hasId hs hT, hliteral, hfinite]

theorem ready_start (context : FilterContext) (hT : T ∈ context.schema.types) {names : Naming}
    (hnames : startingPosition.2.Keeps names) :
    Filter.Ready context ⟨T.name, []⟩ startingPosition.1 T (fun _ => none) { names } where
  declared := hT
  type := rfl
  lambdas _ := rfl
  lambda_declared _ _ h := by simp at h
  bound _ _ h := by simp at h
  definitions scope name found h := by
    have hnone : names.defined? scope name = none := by
      rw [Naming.defined?, hnames.namespaces]
      rfl
    simp [hnone] at h
  known k hk := by simp [startingPosition, Naming.rootScope, Naming.newPlace] at hk

theorem compileFilter_cases (hs : reader.schema.Accepted) (hrules : reader.rules = Rule.builtin)
    (hkey : Function.Injective reader.key) (hT : T ∈ reader.schema.types) {names : Naming}
    (hnames : startingPosition.2.Keeps names) (f : Filter) :
    (f.WellFormed reader.schema T (fun _ => none) ∧ ∃ clause body names',
      reader.compileFilter T startingPosition.1 names f = .ok (clause, body, names') ∧
      (∀ {q name r}, names.related? q name = some r → names'.related? q name = some r) ∧
      ∀ {q name v}, names.value? q name = some v → names'.value? q name = some v) ∨
    (¬ f.WellFormed reader.schema T (fun _ => none) ∧ ∃ e,
      reader.compileFilter T startingPosition.1 names f = .error e ∧ e.category = .badRequest) := by
  have hready := ready_start ⟨reader.schema, reader.rules, reader.key⟩ hT hnames
  have hends := Filter.decides_compile hs hrules hkey f hready
  unfold Filter.Decides Filter.Ends at hends
  unfold compileFilter
  split at hends
  · next compiled session hrun =>
      obtain ⟨hgrows, hmade, hformed⟩ := hends
      have hresolves := hmade.resolves (hready.grows hgrows).bound
      obtain ⟨body, hbody⟩ := Forest.placeAll_ok hresolves
      have hkeeps : session.names.Keeps _ := @Forest.place_keeps compiled.forest
        startingPosition.1 session.names
      refine Or.inl ⟨hformed, compiled.clause, body, _, ?_, fun hr => hkeeps.related (hgrows.related hr),
        fun hv => hkeeps.value (hgrows.value hv)⟩
      simp only [hrun]
      rw [hrules, hbody]
  · next e session hrun =>
      refine Or.inr ⟨hends.2, .filter e, ?_, hends.1⟩
      simp only [hrun]

/-- The request is compiled if it is well formed. The names that are left have everything that is
named when the pattern of the expanded read is placed. -/
theorem compile_cases (hs : reader.schema.Accepted) (hrules : reader.rules = Rule.builtin)
    (hkey : Function.Injective reader.key) (request : ReadRequest) :
    (request.WellFormed reader.schema ∧ ∃ query shape forest, reader.compile request = .ok query ∧
      query.entityType ∈ reader.schema.types ∧ query.root = startingPosition.1.place ∧
      Shape.ofExpand reader.schema query.entityType query.expand = .ok shape ∧
      shape.forest reader.schema query.entityType = .ok forest ∧
      (forest.place Rule.builtin startingPosition.1 startingPosition.2).failure = none ∧
      (∀ {q name r}, (forest.place Rule.builtin startingPosition.1 startingPosition.2).names.related? q name =
        some r → query.names.related? q name = some r) ∧
      ∀ {q name v}, (forest.place Rule.builtin startingPosition.1 startingPosition.2).names.value? q name =
        some v → query.names.value? q name = some v) ∨
    (¬ request.WellFormed reader.schema ∧ ∃ e, reader.compile request = .error e ∧
      e.category = .badRequest) := by
  unfold compile
  cases hset : reader.schema.entitySet request.entitySet with
  | error e =>
      refine Or.inr ⟨?_, .schema e, rfl, rfl⟩
      rintro ⟨T, hT, -⟩
      simp [hset] at hT
  | ok T =>
      have hT := hs.entitySet hset
      have hformed : request.WellFormed reader.schema ↔ (∀ id, request.byId = some id →
          id.isLiteral = true ∧ ∀ value, id = .number value → value.isFinite = true) ∧
          request.expand.Fits reader.schema T ∧
          ∀ filter, request.filter = some filter → filter.WellFormed reader.schema T fun _ => none := by
        unfold ReadRequest.WellFormed
        simp [hset]
      cases hid : idFault? request with
      | some e =>
          unfold idFault? at hid
          refine Or.inr ⟨fun h => ?_, .filter e, rfl, ?_⟩
          · cases hby : request.byId with
            | none => simp [hby] at hid
            | some id => simp [hby, ((hformed.mp h).1 id hby).1] at hid
          · cases hby : request.byId with
            | none => simp [hby] at hid
            | some id =>
                cases hliteral : id.isLiteral with
                | true => simp [hby, hliteral] at hid
                | false =>
                    obtain rfl : .idNotLiteral id.describe = e := by simpa [hby, hliteral] using hid
                    rfl
      | none =>
          have heffective := effectiveFilter_wellFormed hs hT hid
          replace hformed : request.WellFormed reader.schema ↔ request.expand.Fits reader.schema T ∧
              ∀ f, request.effectiveFilter = some f → f.WellFormed reader.schema T fun _ => none := by
            rw [hformed, heffective]
            exact and_left_comm
          simp only [compilePattern, hrules]
          obtain ⟨hfits, shape, forest, pattern, hshape, hforest, hfailure, hcompile⟩
            | ⟨hfits, e, hcompile⟩ :=
            request.expand.compile_cases hs hT startingPosition.1 startingPosition.2
          · simp only [hcompile]
            cases hfilter : request.effectiveFilter with
            | none =>
                refine Or.inl ⟨hformed.mpr ⟨hfits, by simp [hfilter]⟩, _, shape, forest, rfl, hT, rfl, hshape,
                  hforest, hfailure, id, id⟩
            | some f =>
                simp only
                obtain ⟨hf, clause, body, names, hok, hrelated, hvalue⟩ | ⟨hf, e, herror, hcategory⟩ :=
                  compileFilter_cases hs hrules hkey hT (@Forest.place_keeps forest startingPosition.1 _) f
                · simp only [hok]
                  exact Or.inl ⟨hformed.mpr ⟨hfits, by simpa [hfilter] using hf⟩, _, shape,
                    forest, rfl, hT, rfl, hshape, hforest, hfailure, hrelated, hvalue⟩
                · simp only [herror]
                  refine Or.inr ⟨fun h => hf ((hformed.mp h).2 f hfilter), e, rfl, hcategory⟩
          · simp only [hcompile]
            exact Or.inr ⟨fun h => hfits (hformed.mp h).1, .expand (.schema e), rfl, rfl⟩

/-- Exactly the well-formed requests are compiled; for all others the request is to blame. -/
theorem compile_accepts (hs : reader.schema.Accepted) (hrules : reader.rules = Rule.builtin)
    (hkey : Function.Injective reader.key) (request : ReadRequest) :
    ((∃ query, reader.compile request = .ok query) ↔ request.WellFormed reader.schema) ∧
      ∀ e, reader.compile request = .error e → e.category = .badRequest := by
  obtain ⟨hformed, query, -, -, hok, -⟩ | ⟨hformed, e, herror, hcategory⟩ :=
    compile_cases hs hrules hkey request
  · exact ⟨iff_of_true ⟨query, hok⟩ hformed, fun e herror => by simp [hok] at herror⟩
  · refine ⟨iff_of_false (fun ⟨query, hok⟩ => by simp [hok] at herror) hformed, fun e' herror' => ?_⟩
    obtain rfl := Except.error.inj (herror.symm.trans herror')
    exact hcategory

/-- A request about the parts of a thing is read, one for the value of a collection is refused. -/
theorem compile_accepts_sample :
    Sample.schema.Accepted ∧ Function.Injective (id : Nat → ScopeKey) ∧
      (∃ query, Reader.compile ⟨Sample.schema, Rule.builtin, id⟩ ⟨"Things", .cons "Parts" .nil .nil,
        some (.any ["Parts"] "x" (.eq (.property ["x", "Whole", "Label"]) .null)), some (.string "1")⟩ =
          .ok query) ∧
      ∃ e, Reader.compile ⟨Sample.schema, Rule.builtin, id⟩
        ⟨"Things", .nil, some (.property ["Parts"]), none⟩ = .error e ∧ e.category = .badRequest := by
  have hT : Sample.thing ∈ Sample.schema.types := List.mem_cons_self
  refine ⟨Sample.accepted, Function.injective_id, ?_, ?_⟩
  · refine (compile_accepts Sample.accepted rfl Function.injective_id _).1.mpr ⟨Sample.thing, rfl, ?_, ?_, ?_⟩
    · rintro id ⟨⟩
      exact ⟨rfl, nofun⟩
    · exact (ExpandTree.fault?_eq_none_iff Sample.accepted hT _).mp rfl
    · rintro filter ⟨⟩
      exact ⟨_, Sample.thing, rfl, rfl, rfl, ⟨_, rfl, rfl⟩, trivial⟩
  · obtain ⟨e, herror⟩ : ∃ e, Reader.compile ⟨Sample.schema, Rule.builtin, id⟩ ⟨"Things", .nil,
        some (.property ["Parts"]), none⟩ = .error e := ⟨_, rfl⟩
    exact ⟨e, herror, (compile_accepts Sample.accepted rfl Function.injective_id _).2 e herror⟩

end Reader
end EntityGraph
