import EntityGraph.Proofs.Filter.Worded
import EntityGraph.Proofs.Read.Conforms

/-!
# The vocabulary of a query

A compiled query is made of the vocabulary of the schema, of numerals and of the strings of the request:
its pattern, its condition, and the patterns of every `any` in it.
-/
namespace EntityGraph

open Sparql (Clause Query)

/-- The string literals of the condition of a request, from left to right. -/
def ReadRequest.strings (request : ReadRequest) : List String :=
  (request.effectiveFilter.map Filter.strings).getD []

namespace Reader

variable {reader : Reader} {T : EntityType} {request : ReadRequest} {w : Vocabulary}
  (hs : reader.schema.Accepted) (hrules : reader.rules = Rule.builtin) (hw : w.Covers reader.schema)
  (hnumeral : ∀ value text, Filter.numberText value = .ok text → w.numeral text)

include hs hrules hw hnumeral

theorem compileFilter_worded {position : Position} {names names' : Naming} {f : Filter} {clause : Clause}
    {body : Body} (hn : names.Worded w) (h : reader.compileFilter T position names f =
      .ok (clause, body, names')) :
    clause.Worded w ∧ clause.strings = f.strings ∧ body.Each (Body.worded w) position.place.var := by
  have hspeaks := @Filter.speaks_compile ⟨reader.schema, reader.rules, reader.key⟩
    ⟨T.name, []⟩ position { names } w hs hw hnumeral hrules f hn
  dsimp only [compileFilter] at h
  split at h
  · simp at h
  · next compiled session hrun =>
      obtain ⟨hnames, hforest, hclause, hstrings⟩ := hspeaks.of_run hrun
      obtain ⟨hbody, -⟩ := hforest.worded_place hw hnames position
      rw [hrules] at h
      cases hfailure : (compiled.forest.place Rule.builtin position session.names).failure with
      | some e => simp [Forest.placeAll, hfailure] at h
      | none =>
          simp only [Forest.placeAll, hfailure, Except.ok.injEq, Prod.mk.injEq] at h
          obtain ⟨rfl, rfl, -⟩ := h
          exact ⟨hclause, hstrings, hbody⟩

theorem compilePattern_worded (hT : T ∈ reader.schema.types) {pattern : Pattern} {condition : Option Clause}
    {names : Naming} (h : reader.compilePattern T request = .ok (pattern, condition, names)) :
    pattern.body.Each (Body.worded w) pattern.root ∧ (∀ c, condition = some c → c.Worded w) ∧
      (condition.map Clause.strings).getD [] = request.strings := by
  have hstart : startingPosition.2.Worded w := by
    intro place name var hvar
    simp [startingPosition, Naming.newPlace, Naming.rootScope, Naming.value?] at hvar
  dsimp only [compilePattern] at h
  rw [hrules] at h
  unfold ReadRequest.strings
  cases hexpand : request.expand.compile reader.schema Rule.builtin T startingPosition.1
    startingPosition.2 with
  | error e => simp [hexpand] at h
  | ok compiled =>
      obtain ⟨read, between⟩ := compiled
      obtain ⟨hroot, hread, hn⟩ := ExpandTree.worded_compile hs hw hT hstart hexpand
      simp only [hexpand] at h
      cases hfilter : request.effectiveFilter with
      | none =>
          simp only [hfilter, Except.ok.injEq, Prod.mk.injEq] at h
          obtain ⟨rfl, rfl, -⟩ := h
          exact ⟨hroot ▸ hread, by simp, rfl⟩
      | some f =>
          simp only [hfilter] at h
          cases hcompiled : reader.compileFilter T startingPosition.1 between f with
          | error e => simp [hcompiled] at h
          | ok result =>
              obtain ⟨clause, body, names'⟩ := result
              obtain ⟨hclause, hstrings, hbody⟩ := compileFilter_worded hs hrules hw hnumeral hn hcompiled
              simp only [hcompiled, Except.ok.injEq, Prod.mk.injEq] at h
              obtain ⟨rfl, rfl, -⟩ := h
              refine ⟨?_, by simpa using hclause, by simpa using hstrings⟩
              rw [hroot]
              exact hread.append ⟨trivial, hbody, trivial⟩

/-- A compiled query is made of the vocabulary and of the strings of the request. -/
theorem compile_worded {query : CompiledQuery} (h : reader.compile request = .ok query) :
    query.sparql = Query.text ⟨reader.schema.prefixes, query.pattern.group, query.condition.map Clause.text⟩ ∧
      query.pattern.body.Each (Body.worded w) query.pattern.root ∧
        (∀ c, query.condition = some c → c.Worded w) ∧
      (query.condition.map Clause.strings).getD [] = request.strings := by
  unfold compile at h
  cases hset : reader.schema.entitySet request.entitySet with
  | error e => simp [hset] at h
  | ok owner =>
      simp only [hset] at h
      cases hid : idFault? request with
      | some e => simp [hid] at h
      | none =>
          simp only [hid] at h
          cases hpattern : reader.compilePattern owner request with
          | error e => simp [hpattern] at h
          | ok result =>
              obtain ⟨pattern, condition, names⟩ := result
              simp only [hpattern] at h
              obtain rfl := Except.ok.inj h
              obtain ⟨hbody, hcondition, hstrings⟩ :=
                compilePattern_worded hs hrules hw hnumeral (hs.entitySet hset) hpattern
              exact ⟨rfl, hbody, hcondition, hstrings⟩

end Reader
end EntityGraph
