import EntityGraph.Proofs.Read.Literals
import EntityGraph.Proofs.Sparql.Existentials

/-!
# Declared names

Whatever compiling asks of an accepted schema is there, and what reaches a query has been checked: every
predicate and every fixed term, in the pattern of the query and in the patterns of every `EXISTS`, is a
prefixed name with a declared prefix. Everything else in a pattern is a numbered variable.
-/
namespace EntityGraph

open Sparql

/-- The vocabulary of a schema: declared names and numbered variables. -/
def Vocabulary.declared (schema : Schema) : Vocabulary where
  name := schema.Declares
  var v := ∃ k, v = variableName k
  numeral _ := True

theorem Vocabulary.declared_covers (schema : Schema) : (declared schema).Covers schema where
  name _ h := h
  var k := ⟨k, rfl⟩

theorem Sparql.Clause.Worded.existentials {w : Vocabulary} {c : Clause} (h : c.Worded w)
    {outside : List String} {x : Existential} (hx : x ∈ c.existentials outside) : x.group.Worded w := by
  induction c generalizing outside with
  | string | number | boolean | var | bound => simp [Clause.existentials] at hx
  | and left right ihl ihr =>
      obtain hx | hx := List.mem_append.mp hx
      · exact ihl h.1 hx
      · exact ihr h.2 hx
  | or left right ihl ihr =>
      obtain hx | hx := List.mem_append.mp hx
      · exact ihl h.1 hx
      · exact ihr h.2 hx
  | equal left right ihl ihr =>
      obtain hx | hx := List.mem_append.mp hx
      · exact ihl h.1 hx
      · exact ihr h.2 hx
  | not inner ih => exact ih h hx
  | existing group condition ih =>
      obtain rfl | hx := List.mem_cons.mp hx
      · exact h.1
      · exact ih h.2 hx

/-- The predicates and fixed terms of the query are declared, and all else in its patterns are variables. -/
structure CompiledQuery.Declared (schema : Schema) (query : CompiledQuery) : Prop where
  text : query.sparql = Query.text ⟨schema.prefixes, query.pattern.group, query.condition.map Clause.text⟩
  pattern : query.pattern.body.Each (Body.worded (.declared schema)) query.pattern.root
  group : query.pattern.group.Worded (.declared schema)
  existentials : ∀ c, query.condition = some c → ∀ outside, ∀ x ∈ c.existentials outside,
    x.group.Worded (.declared schema)

namespace Reader

variable {reader : Reader}

/-- An accepted schema has whatever compiling asks of it, and only checked names reach a query. -/
theorem compile_declared (hs : reader.schema.Accepted) :
    (∀ T ∈ reader.schema.types, ∀ p ∈ T.properties, reader.schema.ClosedAt T p) ∧
      (reader.rules = Rule.builtin → ∀ request query, reader.compile request = .ok query →
        query.Declared reader.schema) := by
  refine ⟨fun T hT p hp => hs.closedAt hT hp, fun hrules request query h => ?_⟩
  obtain ⟨htext, hbody, hcondition, -⟩ :=
    compile_worded hs hrules (Vocabulary.declared_covers _) (fun _ _ _ => trivial) h
  exact ⟨htext, hbody, Pattern.worded_group hbody, fun c hc outside x hx => (hcondition c hc).existentials hx⟩

theorem compile_declared_sample :
    Sample.schema.Accepted ∧ (∀ p ∈ Sample.thing.properties, Sample.schema.ClosedAt Sample.thing p) ∧
      ∃ query, Reader.compile { schema := Sample.schema } (labelled "1" "a") = .ok query ∧
        query.Declared Sample.schema := by
  obtain ⟨hclosed, hdeclared⟩ := @compile_declared { schema := Sample.schema } Sample.accepted
  obtain ⟨query, hok⟩ : ∃ query, Reader.compile { schema := Sample.schema } (labelled "1" "a") = .ok query :=
    ⟨_, rfl⟩
  exact ⟨Sample.accepted, hclosed Sample.thing (by decide), query, hok, hdeclared rfl _ query hok⟩

end Reader
end EntityGraph
