import EntityGraph.Proofs.Filter.Variables
import EntityGraph.Proofs.Read.Condition
import EntityGraph.Proofs.Read.Declared
import EntityGraph.Proofs.Read.Requests
import EntityGraph.Proofs.Read.Typed
import EntityGraph.Proofs.Sparql.Tokens

/-!
# Reads by a number

A request for the entity with a number as its identifier is compiled to a query whose condition compares the
variable of the identifier, the one that the answer is decoded from, with the text of the number. If the
identifier is a foreign key, the condition reads it from the related entity; at the root that is the same
variable, because no other entity leads to the root.
-/
namespace EntityGraph

open Sparql (Clause Query)

def Sparql.Clause.StartsWith (condition first : Clause) : Prop :=
  condition = first ∨ ∃ other, condition = .and first other

/-- The query has a filter, which requires that the variable of the identifier is equal to the number
with this text. -/
def CompiledQuery.ComparesId (query : CompiledQuery) (numeral : String) : Prop :=
  ∃ v condition front, query.names.value? query.root idName = some v ∧ query.condition = some condition ∧
    condition.StartsWith (.equal (.var v) (.number numeral)) ∧
    query.sparql = front ++ "FILTER(" ++ condition.text ++ ") \x7d"

namespace ExpandTree

variable {schema : Schema} {T : EntityType} {expand : ExpandTree} {pattern : Pattern} {names : Naming}
  (hs : schema.Accepted) (hT : T ∈ schema.types)
  (h : expand.compile schema Rule.builtin T Reader.startingPosition.1 Reader.startingPosition.2 =
    .ok (pattern, names))

include hs hT h

/-- No navigation property leads to the root, so the identifier of the root gets its variable as every foreign
key does, if it is one. -/
theorem compile_copies {i : Property} (hi : i ∈ T.properties) {navigation : String}
    (hkey : i.foreignKeyOf = some navigation) :
    names.CopiesAt Reader.startingPosition.1.place i.name navigation := by
  obtain ⟨kind, hlabel, hkind⟩ := compile_kinds h
  obtain ⟨shape, forest, hshape, hforest, hplaced, rfl, rfl⟩ := compile_ok h
  have htyped := (Shape.shows_ofExpand hs hT hshape).ofType hs hT (fun _ => id) hforest
  refine htyped.place_copiesAt hs hT hplaced (.refl _) hlabel hkind hkind hi hkey (.inr fun a name hr => ?_)
    fun v hv => absurd (show (none : Option String) = some v from hv) (by simp)
  exact absurd (hlabel.related hr).1 (Nat.not_lt_zero _)

theorem compile_idVar : ∃ v, names.value? Reader.startingPosition.1.place idName = some v ∧
    schema.valueVar? names T Reader.startingPosition.1.place [idName] = some v := by
  obtain ⟨i, hi, hname, hfound, -⟩ := hs.id hT
  obtain ⟨v, hv⟩ : ∃ v, names.value? Reader.startingPosition.1.place idName = some v := by
    obtain ⟨shape, forest, hshape, hforest, hplaced, rfl, rfl⟩ := compile_ok h
    have hshows := Shape.shows_ofExpand hs hT hshape
    exact hshows.named_id hs hT (hshows.named hs hT (fun _ => id) hforest hplaced)
  refine ⟨v, hv, ?_⟩
  cases hkey : i.foreignKeyOf with
  | none => rw [Schema.valueVar?_value hfound hkey, hname, hv]
  | some navigation =>
      obtain ⟨r, hr, hid⟩ := compile_copies hs hT h hi hkey v (hname ▸ hv)
      rw [Schema.valueVar?_foreignKey hfound hkey, hr, Option.bind_some, hid]

end ExpandTree

namespace Filter

variable {context : FilterContext} {scope : FilterScope} {position : Position} {session : Session}
    {value : Binary64}
  {text v : String}

theorem ends_of_forall {α : Type} {good : α → Session → Prop} (x : FilterM α) (h : ∀ a after, good a after) :
    Ends x session good fun _ => True := by
  unfold Ends
  split
  · exact h _ _
  · trivial

theorem ends_hasId (hv : scope.valueVar? context.schema position session.names [idName] = some v)
    (htext : numberText value = .ok text) :
    Ends ((hasId (.number value)).compile context scope position) session
      (fun compiled _ => compiled.clause = .equal (.var v) (.number text)) fun _ => True := by
  unfold hasId compile
  rw [ends_bind]
  refine (finds_compileProperty context scope position [idName] session).imp (fun l after h => ?_) fun _ => id
  obtain ⟨-, ⟨u, hclause, hu⟩, hsame⟩ := h
  obtain rfl := hsame (by rw [hv]; rfl)
  obtain rfl := Option.some.inj (hv.symm.trans hu)
  unfold compile
  rw [ends_bind, htext]
  simp only [ends_pure, hclause]
  cases l.mayBeUnbound || false <;> rfl

theorem ends_effectiveFilter {request : ReadRequest} (hid : request.byId = some (.number value)) {f : Filter}
    (hf : request.effectiveFilter = some f)
    (hv : scope.valueVar? context.schema position session.names [idName] = some v)
    (htext : numberText value = .ok text) :
    Ends (f.compile context scope position) session (fun compiled _ =>
      compiled.clause.StartsWith (.equal (.var v) (.number text))) fun _ => True := by
  unfold ReadRequest.effectiveFilter at hf
  rw [hid] at hf
  have hends := ends_hasId hv htext
  cases hfilter : request.filter with
  | none =>
      obtain rfl : hasId (.number value) = f := by simpa [hfilter] using hf
      exact hends.imp (fun _ _ => Or.inl) fun _ => id
  | some g =>
      obtain rfl : and (hasId (.number value)) (parentheses g) = f := by simpa [hfilter] using hf
      unfold compile
      rw [ends_bind]
      refine hends.imp (fun l after hl => ?_) fun _ => id
      rw [ends_bind]
      exact ends_of_forall _ fun r _ => Or.inr ⟨r.clause, by rw [hl]⟩

end Filter

namespace Reader

variable {reader : Reader} {T : EntityType} {request : ReadRequest} {query : CompiledQuery} {value : Binary64}
  {text : String}

theorem compile_sparql (hs : reader.schema.Accepted) (hrules : reader.rules = Rule.builtin)
    (h : reader.compile request = .ok query) {condition : Clause}
    (hcondition : query.condition = some condition) :
    ∃ front, query.sparql = front ++ "FILTER(" ++ condition.text ++ ") \x7d" := by
  obtain ⟨htext, -⟩ := compile_worded hs hrules (Vocabulary.declared_covers _) (fun _ _ _ => trivial) h
  refine ⟨Query.header reader.schema.prefixes ++ "SELECT * WHERE \x7b " ++
    (if query.pattern.group.isNil then "" else query.pattern.group.text ++ " "), ?_⟩
  rw [htext, hcondition, Option.map_some, Query.text, Query.body_conditional]
  simp only [String.append_assoc]
  rfl

theorem compileFilter_startsWith (hs : reader.schema.Accepted) (hT : T ∈ reader.schema.types)
    (hid : request.byId = some (.number value)) {f : Filter} (hf : request.effectiveFilter = some f)
    (htext : Filter.numberText value = .ok text) {before names : Naming} {v : String}
    (hv : reader.schema.valueVar? before T startingPosition.1.place [idName] = some v)
    {clause : Clause} {body : Body}
    (h : reader.compileFilter T startingPosition.1 before f = .ok (clause, body, names)) :
    clause.StartsWith (.equal (.var v) (.number text)) := by
  have hstart : (FilterScope.mk T.name []).valueVar? reader.schema startingPosition.1 before
    [idName] = some v := by
    simp [FilterScope.valueVar?, hs.entityType hT, Except.toOption, hv]
  have hends : Filter.Ends (f.compile ⟨reader.schema, reader.rules, reader.key⟩ ⟨T.name, []⟩
    startingPosition.1)
      { names := before } (fun compiled _ => compiled.clause.StartsWith (.equal (.var v) (.number text)))
      fun _ => True := Filter.ends_effectiveFilter hid hf hstart htext
  dsimp only [compileFilter] at h
  split at h
  · simp at h
  · next compiled session hrun =>
      split at h
      · simp at h
      · obtain ⟨rfl, -, -⟩ : compiled.clause = clause ∧ _ = body ∧ _ = names := by simpa using h
        exact hends.of_run hrun

/-- A read by a number asks for the entities whose identifier is the number, as it is written. -/
theorem compile_byId (hs : reader.schema.Accepted) (hrules : reader.rules = Rule.builtin)
    (hkey : Function.Injective reader.key) (hid : request.byId = some (.number value))
    (htext : Filter.numberText value = .ok text) (h : reader.compile request = .ok query) :
    query.ComparesId text := by
  obtain ⟨hset, hroot, -, hpattern⟩ := compile_ok h
  have hT := hs.entitySet hset
  obtain ⟨f, hf⟩ : ∃ f, request.effectiveFilter = some f := by
    unfold ReadRequest.effectiveFilter
    rw [hid]
    cases request.filter with
    | none => exact ⟨_, rfl⟩
    | some g => exact ⟨_, rfl⟩
  obtain ⟨base, before, clause, body, hcompile, hfilter, hcondition, -⟩ := compilePattern_some hf hpattern
  rw [hrules] at hcompile
  obtain ⟨v, hv, hfound⟩ := ExpandTree.compile_idVar hs hT hcompile
  have hbefore : startingPosition.2.Keeps before := by
    obtain ⟨-, -, -, -, -, rfl, -⟩ := ExpandTree.compile_ok hcompile
    exact Forest.place_keeps
  obtain ⟨front, htail⟩ := compile_sparql hs hrules h hcondition
  refine ⟨v, clause, front, ?_, hcondition, compileFilter_startsWith hs hT hid hf htext hfound hfilter, htail⟩
  -- what the expanded read named keeps its name when the condition is compiled
  obtain ⟨-, clause', body', names, hok, -, hvalue⟩ | ⟨-, e, herror, -⟩ :=
    compileFilter_cases hs hrules hkey hT hbefore f
  · obtain ⟨rfl, rfl, rfl⟩ : clause = clause' ∧ body = body' ∧ query.names = names := by
      simpa using hfilter.symm.trans hok
    exact hroot ▸ hvalue hv
  · simp [hfilter] at herror

end Reader
end EntityGraph
