import EntityGraph.Proofs.Read.Filtered

/-!
# Conditions on the elements of a collection

A condition `any` is evaluated in every row of an entity. It holds if its predicate holds of an element
of the collection. An entity without elements is not excluded: the edge to the elements is optional, and
where it leads to nothing the predicate is evaluated once, with a lambda variable that stands for nothing.
A predicate that can hold then, such as a truth value or a comparison with `null`, makes the condition hold.
-/
namespace EntityGraph

open Sparql

namespace Filter

theorem any_candidates {elements : List Term} {P : Option Term → Bool} :
    (candidates elements).any P = true ↔
      (∃ m ∈ elements, P (some m) = true) ∨ elements = [] ∧ P none = true := by
  unfold candidates
  cases elements with
  | nil => simp
  | cons m rest => simp

end Filter

namespace Reader

section Rows

variable {reader : Reader} {ops : Operators} {data : Dataset} {query : CompiledQuery} {request : ReadRequest}
  {f : Filter} {path : List String} {x : String} (hs : reader.schema.Accepted) (hids : reader.schema.OwnIds)
  (hrules : reader.rules = Rule.builtin) (hdata : Conforms reader.schema data)
  (hkey : Function.Injective reader.key)

include hs hids hrules hdata hkey

/-- An `any` holds in a row of an entity exactly if its predicate holds of an element, or if there are no
elements and the predicate holds of nothing. -/
theorem any_holds (hfilter : request.effectiveFilter = some (.any path x f))
    (h : reader.compile request = .ok query) {μ : Solution}
    (hμ : μ ∈ query.pattern.group.solutions data .empty) {n : Term} (hn : μ.get? query.root.var = some n)
    (hground : (Filter.any path x f).Grounded reader.schema data ⟨query.entityType, some n, false⟩
      fun _ => none) :
    ∃ clause t elements, query.condition = some clause ∧
      Filter.elementsAt reader.schema data ⟨query.entityType, some n, false⟩ (fun _ => none) path =
        some (t, elements) ∧
      (clause.holds ops data μ.get? = true ↔
        (∃ m ∈ elements, f.holds ops reader.schema data ⟨query.entityType, some n, false⟩
          (Function.update (fun _ => none) x (some ⟨t, some m, false⟩)) = true) ∨
        elements = [] ∧ f.holds ops reader.schema data ⟨query.entityType, some n, false⟩
          (Function.update (fun _ => none) x (some ⟨t, none, false⟩)) = true) := by
  obtain ⟨-, hroot, -, -⟩ := compile_ok h
  obtain ⟨w, clause, b, vs, base, hcondition, hw, hrenders, hunlinked, hbase, hinterprets⟩ :=
    condition_rows hs hids hrules hdata hkey hfilter h
  obtain ⟨hσ, hsat⟩ := hinterprets μ hμ
  rw [hroot] at hn
  have hvalue : clause.value ops data μ.get? = (Filter.any path x f).value ops reader.schema data
      ⟨query.entityType, some n, false⟩ fun _ => none := by
    rw [← hn] at hground ⊢
    exact hrenders.value_eq hs hids hdata hw hσ (by simp [Filter.Apart]) hunlinked hbase
      (by simp [hn]) hsat hground
  have hsome : (clause.value ops data μ.get?).isSome := by
    cases hrenders
    rfl
  rw [hvalue, Filter.value, Option.isSome_map] at hsome
  obtain ⟨⟨t, elements⟩, helements⟩ := Option.isSome_iff_exists.mp hsome
  refine ⟨clause, t, elements, hcondition, helements, ?_⟩
  rw [Clause.holds, hvalue, Filter.value, helements, Option.map_some, Option.bind_some, ops.truth_ofBool,
    beq_iff_eq, Option.some.injEq]
  exact Filter.any_candidates

end Rows

def withPart (predicate : Filter) : ReadRequest where
  entitySet := "Things"
  filter := some (.any ["Parts"] "x" predicate)

/-- The whole has a part with that label. -/
theorem any_holds_sample :
    Sample.schema.Accepted ∧ Sample.schema.OwnIds ∧ Conforms Sample.schema Sample.data ∧
      Function.Injective (id : Nat → ScopeKey) ∧
      ∃ query clause t elements, Reader.compile { schema := Sample.schema }
          (withPart (.eq (.property ["x", "Label"]) (.string "part"))) = .ok query ∧
        (∃ μ ∈ query.pattern.group.solutions Sample.data .empty, μ.get? query.root.var = some Sample.whole ∧
          query.condition = some clause ∧
          Filter.elementsAt Sample.schema Sample.data ⟨query.entityType, some Sample.whole, false⟩
            (fun _ => none) ["Parts"] = some (t, elements) ∧
          (clause.holds Sample.operators Sample.data μ.get? = true ↔
            (∃ m ∈ elements, (Filter.eq (.property ["x", "Label"]) (.string "part")).holds Sample.operators
              Sample.schema Sample.data ⟨query.entityType, some Sample.whole, false⟩
              (Function.update (fun _ => none) "x" (some ⟨t, some m, false⟩)) = true) ∨
            elements = [] ∧ (Filter.eq (.property ["x", "Label"]) (.string "part")).holds Sample.operators
              Sample.schema Sample.data ⟨query.entityType, some Sample.whole, false⟩
              (Function.update (fun _ => none) "x" (some ⟨t, none, false⟩)) = true)) := by
  obtain ⟨query, hok, hrow⟩ : ∃ query, Reader.compile { schema := Sample.schema }
      (withPart (.eq (.property ["x", "Label"]) (.string "part"))) = .ok query ∧
      ∃ μ ∈ query.pattern.group.solutions Sample.data .empty, μ.get? query.root.var = some Sample.whole :=
    ⟨_, rfl, by decide⟩
  obtain ⟨μ, hμ, hn⟩ := hrow
  have hground :
    (Filter.any ["Parts"] "x" (.eq (.property ["x", "Label"]) (.string "part"))).Grounded Sample.schema
      Sample.data ⟨query.entityType, some Sample.whole, false⟩ fun _ => none :=
    ⟨by simp, fun _ _ _ _ _ => ⟨trivial, trivial⟩⟩
  obtain ⟨clause, t, elements, hcondition, helements, hholds⟩ := any_holds Sample.accepted Sample.ownIds rfl
    Sample.conforms Function.injective_id rfl hok hμ hn hground
  exact ⟨Sample.accepted, Sample.ownIds, Sample.conforms, Function.injective_id, query, clause, t,
    elements, hok, μ, hμ, hn, hcondition, helements, hholds⟩

/-- The part has no parts itself, and a condition on its parts holds all the same. -/
theorem any_holds_without_elements :
    Sample.schema.Accepted ∧ Conforms Sample.schema Sample.data ∧
      Sample.thing.Instance Sample.data Sample.part ∧
      Filter.elementsAt Sample.schema Sample.data ⟨Sample.thing, some Sample.part, false⟩
        (fun _ => none) ["Parts"] = some (Sample.thing, []) ∧
      ∃ query clause, Reader.compile { schema := Sample.schema } (withPart (.boolean true)) = .ok query ∧
        query.condition = some clause ∧
        ∃ μ ∈ query.pattern.group.solutions Sample.data .empty, μ.get? query.root.var = some Sample.part ∧
          clause.holds Sample.operators Sample.data μ.get? = true := by
  have hinstance : Sample.thing.Instance Sample.data Sample.part := by
    refine ⟨?_, Sample.idProperty, .ofNumeral "2", Sample.thing_id, by decide⟩
    rintro c ⟨⟩
    decide
  exact ⟨Sample.accepted, Sample.conforms, hinstance, by decide, _, _, rfl, rfl, by decide⟩

end Reader
end EntityGraph
