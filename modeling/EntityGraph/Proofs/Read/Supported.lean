import EntityGraph.Proofs.Pattern.Supported
import EntityGraph.Proofs.Read.Identified
import EntityGraph.Proofs.Read.Isolated
import EntityGraph.Proofs.Read.Unaffected

/-!
# The optional groups of a query

The pattern of a query has a triple at its root, if the entity type has a class or reads its identifier over
an edge of its own. Its edges are steps in the tree of the entity that is read, and the pattern that binds
the variables of the condition hangs at the same root. So every optional group follows, in the same braces, a
triple with the variable from which it departs.
-/
namespace EntityGraph

open Sparql

/-- The triple is a step from `v` in the trees of the names: between an entity, whose variable is `v`, and one
of its values or a related entity. -/
def Naming.Departs (names : Naming) (t : Triple) (v : String) : Prop :=
  ∃ e : Edge, (Body.steps names).edge v e ∧ t = e.triple v

theorem Naming.Labelled.departs {α : Type} {scheme : Naming.Labelling α} {label : Nat → α} {names : Naming}
    (h : names.Labelled scheme label) {t : Triple} {v : String} (hv : names.Departs t v) :
    isVariable v = true ∧ ∀ w, names.Departs t w → w = v := by
  obtain ⟨e, he, rfl⟩ := hv
  obtain ⟨i, k, rfl, htarget, hlt⟩ := h.step_lt he
  refine ⟨isVariable_variableName i, ?_⟩
  rintro w ⟨e', he', heq⟩
  obtain ⟨i', k', rfl, htarget', hlt'⟩ := h.step_lt he'
  -- both ends of the one are ends of the other
  have hends : ∀ {x}, (x = variableName i ∨ x = e.target) ↔ (x = variableName i' ∨ x = e'.target) := by
    intro x
    rw [← Edge.hasEnd_triple, ← Edge.hasEnd_triple, heq]
  obtain hsame | hother := hends.mpr (Or.inl rfl)
  · exact hsame
  · obtain hback | hback := hends.mp (Or.inl rfl)
    · exact hback.symm
    · have hk := variableName_injective (hother.trans htarget)
      have hk' := variableName_injective (hback.trans htarget')
      omega

theorem ExpandTree.compile_ownTriples {schema : Schema} {T : EntityType} {expand : ExpandTree}
    {pattern : Pattern}
    {names : Naming} (hs : schema.Accepted) (hT : T ∈ schema.types) (hown : T.rdfClass ≠ none ∨ T.OwnId)
    (h : expand.compile schema Rule.builtin T Reader.startingPosition.1 Reader.startingPosition.2 =
      .ok (pattern, names)) : pattern.body.ownTriples pattern.root ≠ [] := by
  obtain hclass | hown := hown
  · obtain ⟨c, hc⟩ := Option.ne_none_iff_exists'.mp hclass
    obtain ⟨body, hsteps, rfl⟩ := compile_steps hs hT h
    simp [classBody, hc, Body.leaf_merge (fun _ _ _ => id) hsteps, Body.ownTriples, Body.leaves]
  · obtain ⟨v, -, hv⟩ := compile_plain_id hs hT h hown
    obtain ⟨entry, hentry, -⟩ := Body.exists_plain_of_mem_plainTargets hv
    exact List.append_ne_nil_of_right_ne_nil _ (List.ne_nil_of_mem (List.mem_map_of_mem hentry))

namespace Reader

variable {reader : Reader} {request : ReadRequest} {query : CompiledQuery}

section Compiled

variable (hs : reader.schema.Accepted) (hrules : reader.rules = Rule.builtin)
  (hkey : Function.Injective reader.key)

include hs hrules hkey

theorem compile_departing (h : reader.compile request = .ok query) :
    query.pattern.body.Each (Body.departing query.names.Departs) query.pattern.root ∧
      ∃ label, query.names.Labelled Naming.inherited label := by
  obtain ⟨hset, -, -, hpattern⟩ := compile_ok h
  have hread : ∀ {base before}, request.expand.compile reader.schema Rule.builtin query.entityType
      startingPosition.1 startingPosition.2 = .ok (base, before) → before.Grows query.names →
      base.body.Each (Body.departing query.names.Departs) base.root := fun hcompile hgrows =>
    (ExpandTree.compile_walks hs (hs.entitySet hset) hcompile).mono (fun _ _ _ _ => trivial)
      (fun _ e he => ⟨e, hgrows.steps he, rfl⟩) fun _ _ => False.elim
  cases hfilter : request.effectiveFilter with
  | none =>
      obtain ⟨-, hcompile⟩ := compilePattern_none hfilter hpattern
      rw [hrules] at hcompile
      obtain ⟨label, hlabel, -⟩ := expand_parted hcompile
      exact ⟨hread hcompile (.refl _), label, hlabel⟩
  | some f =>
      obtain ⟨base, before, compiled, session, added, loose, hcompile, -, hisolated, hmade, hnames, hquery⟩ :=
        compile_filtered hs hrules hkey hfilter h
      obtain ⟨label, hlabel, -⟩ :=
        (hisolated.parted.place compiled.forest (hisolated.parted.root_lt (Or.inl rfl))).1
      have hplaced : (compiled.forest.place Rule.builtin startingPosition.1 session.names).names.Grows
        query.names :=
        hnames ▸ .refl _
      have hgrows := hisolated.grows.trans (Forest.place_keeps.grows.trans hplaced)
      have hbound := Forest.place_steps hmade.every hisolated.pruned hplaced
      rw [hquery]
      refine ⟨.append (hread hcompile hgrows) ⟨?_, ?_, trivial⟩, label, hnames ▸ hlabel⟩
      · obtain ⟨-, -, -, -, -, -, rfl⟩ := ExpandTree.compile_ok hcompile
        rfl
      · exact hbound.mono (fun _ _ _ => False.elim) (fun _ e he => ⟨e, he, rfl⟩) fun _ _ => False.elim

/-- In the query of an entity type that has a class, or whose identifier is no foreign key, every `OPTIONAL`
of the pattern, at any depth, opens with a triple that departs from one variable, and follows a triple with
that variable in the same braces. -/
theorem compile_supported {T : EntityType} (hset : reader.schema.entitySet request.entitySet = .ok T)
    (hown : T.rdfClass ≠ none ∨ T.OwnId) (h : reader.compile request = .ok query) :
    query.sparql = Query.text ⟨reader.schema.prefixes, query.pattern.group, query.condition.map Clause.text⟩ ∧
      (∀ t v, query.names.Departs t v → isVariable v = true ∧ ∀ w, query.names.Departs t w → w = v) ∧
      query.pattern.group.Supported query.names.Departs [] := by
  obtain ⟨hset', -, -, -⟩ := compile_ok h
  obtain rfl := Except.ok.inj (hset.symm.trans hset')
  obtain ⟨hdeparting, label, hlabel⟩ := compile_departing hs hrules hkey h
  obtain ⟨selection, before, hcompile, -, hselects⟩ := compile_selects hs hrules hkey h
  obtain ⟨hroot, hleaves, hedges, -⟩ := hselects.parts
  have htriples := ExpandTree.compile_ownTriples hs (hs.entitySet hset) hown hcompile
  refine ⟨(compile_unquoted hs hrules h).1, fun t v => hlabel.departs, Pattern.supported_group hdeparting ?_⟩
  rw [Body.ownTriples, Body.plains, hroot, hleaves, hedges]
  exact htriples

end Compiled

/-- Parts with their wholes, of the things that are labelled as their wholes are: there are optional groups
below optional edges, in alternatives and in the conjunct of the condition. -/
theorem compile_supported_sample :
    Sample.schema.Accepted ∧ Function.Injective (id : Nat → ScopeKey) ∧
      Sample.schema.entitySet "Things" = .ok Sample.thing ∧ Sample.thing.rdfClass ≠ none ∧ ∃ query,
      Reader.compile { schema := Sample.schema } ⟨"Things", .cons "Parts" (.cons "Whole" .nil .nil) .nil,
        some (.eq (.property ["Whole", "Label"]) (.property ["Label"])), none⟩ = .ok query ∧
      query.sparql = Query.text ⟨Sample.schema.prefixes, query.pattern.group,
        query.condition.map Clause.text⟩ ∧
      query.pattern.group.Supported query.names.Departs [] := by
  obtain ⟨query, h⟩ : ∃ query, Reader.compile { schema := Sample.schema }
      ⟨"Things", .cons "Parts" (.cons "Whole" .nil .nil) .nil,
        some (.eq (.property ["Whole", "Label"]) (.property ["Label"])), none⟩ = .ok query := ⟨_, rfl⟩
  have hclass : Sample.thing.rdfClass ≠ none := by simp [Sample.thing]
  obtain ⟨htext, -, hsupported⟩ := compile_supported Sample.accepted rfl Function.injective_id
    (T := Sample.thing) rfl (Or.inl hclass) h
  exact ⟨Sample.accepted, Function.injective_id, rfl, hclass, query, h, htext, hsupported⟩

end Reader
end EntityGraph
