import EntityGraph.Proofs.Filter.Isolated
import EntityGraph.Proofs.Read.Condition
import EntityGraph.Proofs.Read.Literals
import EntityGraph.Proofs.Read.Requests

/-!
# Scopes that do not leak

The variables of a query stand for entities and values in the trees of the filtered entity and of the
entities that lambda variables are bound to, or for `null`. The trees have no variable in common. What
belongs to a lambda variable is written inside the `EXISTS` of its `any` only, and what stands for `null`
is in no triple.
-/
namespace EntityGraph

open Sparql

namespace Filter

theorem binders_keys (key : Nat → ScopeKey) (f : Filter) (scope : Scope) (drawn : Nat) :
    (f.binders key scope drawn).map (fun binder => binder.1.keys.head?) =
      (List.range' drawn f.anys).map fun i => some (key i) := by
  induction f generalizing scope drawn with
  | and left right ihl ihr =>
      rw [binders, anys, List.map_append, ihl, ihr, ← List.map_append, List.range'_append_1]
  | or left right ihl ihr =>
      rw [binders, anys, List.map_append, ihl, ihr, ← List.map_append, List.range'_append_1]
  | eq left right ihl ihr =>
      rw [binders, anys, List.map_append, ihl, ihr, ← List.map_append, List.range'_append_1]
  | parentheses inner ih => exact ih scope drawn
  | any path name predicate ih =>
      rw [binders, anys, List.map_cons, ih, List.range'_succ, List.map_cons]
      rfl
  | _ => rfl

theorem nodup_binders {key : Nat → ScopeKey} (hkey : Function.Injective key) (f : Filter) (scope : Scope)
    (drawn : Nat) : (f.binders key scope drawn).Nodup := by
  refine List.Nodup.of_map (fun binder => binder.1.keys.head?) ?_
  rw [binders_keys]
  exact List.Nodup.map (fun i j h => hkey (Option.some.inj h)) List.nodup_range'

end Filter

theorem Naming.defined?_of_mem {names : Naming} (hnodup : (names.namespaces.map Prod.fst).Nodup)
    {entry : (Scope × String) × Namespace} (h : entry ∈ names.namespaces) :
    names.defined? entry.1.1 entry.1.2 = some entry.2 := by
  unfold defined?
  obtain ⟨⟨scope, name⟩, found⟩ := entry
  generalize names.namespaces = entries at hnodup h
  induction entries with
  | nil => simp at h
  | cons first rest ih =>
      obtain ⟨hfirst, hrest⟩ := List.nodup_cons.mp hnodup
      obtain rfl | h := List.mem_cons.mp h
      · exact List.lookup_cons_self
      · have hne : (scope, name) ≠ first.1 := fun heq => hfirst (heq ▸ List.mem_map_of_mem h)
        rw [List.lookup_cons, beq_eq_false_iff_ne.mpr hne]
        exact ih hrest h

namespace Reader

variable {reader : Reader} {request : ReadRequest} {f : Filter} {query : CompiledQuery}

theorem parted_start : startingPosition.2.Parted {startingPosition.1.place} ∅ := by
  refine ⟨fun _ => some 0, ⟨fun hr => ?_, fun hv => ?_⟩, ?_, by simp, fun scope name found hfound => ?_⟩
  · simp [startingPosition, Naming.related?, Naming.rootScope, Naming.newPlace] at hr
  · simp [startingPosition, Naming.value?, Naming.rootScope, Naming.newPlace] at hv
  · rintro l rfl
    exact ⟨Nat.zero_lt_one, rfl⟩
  · simp [startingPosition, Naming.defined?, Naming.rootScope, Naming.newPlace] at hfound

theorem expand_parted {schema : Schema} {T : EntityType} {expand : ExpandTree} {names : Naming}
    {pattern : Pattern}
    (h : expand.compile schema Rule.builtin T startingPosition.1 startingPosition.2 = .ok (pattern, names)) :
    names.Parted {startingPosition.1.place} ∅ := by
  obtain ⟨shape, forest, -, -, -, rfl, -⟩ := ExpandTree.compile_ok h
  exact (parted_start.place forest Nat.zero_lt_one).1

theorem expand_spans (hs : reader.schema.Accepted) {T : EntityType} (hT : T ∈ reader.schema.types)
    {expand : ExpandTree} {position : Position} {names names' names'' : Naming} {pattern : Pattern}
    (h : expand.compile reader.schema Rule.builtin T position names = .ok (pattern, names'))
    (hgrows : names'.Grows names'') :
    pattern.body.Each (Body.naming (names''.Spans {position.place})) pattern.root := by
  obtain ⟨shape, forest, hshape, hforest, -, rfl, rfl⟩ := ExpandTree.compile_ok h
  have hshows := Shape.shows_ofExpand hs hT hshape
  obtain ⟨forest', hforest', hdeclared⟩ := hshows.every (P := Branch.Declared reader.schema) hs
    (fun T hT p hp b hreads => ⟨T, hT, p, hp, hreads⟩) hT fun _ => id
  obtain rfl := Except.ok.inj (hforest.symm.trans hforest')
  obtain ⟨forest', hforest', hmade⟩ := hshows.made hs hT fun _ => id
  obtain rfl := Except.ok.inj (hforest.symm.trans hforest')
  refine .merge ?_ (Forest.place_spans hs hgrows ?_ hdeclared rfl .self)
  · unfold ExpandTree.classBody
    split
    · next c hc =>
        exact ⟨⟨.reaches rfl .self, Or.inl (by decide), Or.inl (hs.rdfClass hT hc)⟩, trivial⟩
    · trivial
  · exact hmade.within (fun a ha => by simp [Branch.IsProperty] at ha)
      fun name type found hl => by simp [Branch.IsProperty] at hl

section Compiled

variable (hs : reader.schema.Accepted) (hrules : reader.rules = Rule.builtin)
  (hkey : Function.Injective reader.key)

include hs hrules hkey

/-- What is known of the names after a filter was compiled, and of the pattern that binds the variables of the
condition. -/
theorem compileFilter_isolated {T : EntityType} (hT : T ∈ reader.schema.types) {names names' : Naming}
    (hnames : startingPosition.2.Keeps names) (hparted : names.Parted {startingPosition.1.place} ∅)
    {clause : Clause} {body : Body}
    (h : reader.compileFilter T startingPosition.1 names f = .ok (clause, body, names')) :
    ∃ compiled session added loose, compiled.clause = clause ∧
      Filter.Isolated ⟨reader.schema, reader.rules, reader.key⟩ f startingPosition.1.scope
        {startingPosition.1.place} {startingPosition.1.place} ∅ { names } compiled session added loose ∧
      compiled.forest.Made Branch.IsProperty ∧
      (compiled.forest.place Rule.builtin startingPosition.1 session.names).body = body ∧
      (compiled.forest.place Rule.builtin startingPosition.1 session.names).names = names' := by
  have hready := ready_start ⟨reader.schema, reader.rules, reader.key⟩ hT hnames
  have hsees : Filter.Sees {startingPosition.1.place} startingPosition.1 names := by
    refine ⟨rfl, fun {name found} hfound => ?_⟩
    obtain ⟨scope, hdefined⟩ := Naming.defined_of_resolve hfound
    rw [Naming.defined?, hnames.namespaces] at hdefined
    simp [startingPosition, Naming.rootScope, Naming.newPlace] at hdefined
  dsimp only [compileFilter] at h
  split at h
  · simp at h
  · next compiled session hrun =>
      obtain ⟨⟨-, hmade, -⟩, added, loose, hisolated⟩ := ((Filter.decides_compile hs hrules hkey f hready).and
        (Filter.isolates_compile hs hrules hkey f hready hsees (Set.Subset.refl _) hparted)).of_run hrun
      have hproperties : compiled.forest.Made Branch.IsProperty := by
        refine hmade.mono fun branch htop => htop.resolve_right ?_
        rintro ⟨name, t, -, hnone⟩
        simp at hnone
      unfold Forest.placeAll at h
      rw [hrules] at h
      cases hfailure : (compiled.forest.place Rule.builtin startingPosition.1 session.names).failure with
      | some e => simp [hfailure] at h
      | none =>
          simp only [hfailure, Except.ok.injEq, Prod.mk.injEq] at h
          exact ⟨compiled, session, added, loose, h.1, hisolated, hproperties, h.2⟩

/-- A request with a condition: after the expanded read the condition is compiled, and the variables of the
condition are bound by one more conjunct at the root. -/
theorem compile_filtered (hfilter : request.effectiveFilter = some f)
    (h : reader.compile request = .ok query) : ∃ base before compiled session added loose,
      request.expand.compile reader.schema Rule.builtin query.entityType startingPosition.1
        startingPosition.2 = .ok (base, before) ∧
      query.condition = some compiled.clause ∧
      Filter.Isolated ⟨reader.schema, reader.rules, reader.key⟩ f startingPosition.1.scope
        {startingPosition.1.place}
        {startingPosition.1.place} ∅ { names := before } compiled session added loose ∧
      compiled.forest.Made Branch.IsProperty ∧
      (compiled.forest.place Rule.builtin startingPosition.1 session.names).names = query.names ∧
      query.pattern = { base with body := base.body.append (.conjunct startingPosition.1.place.var
        (compiled.forest.place Rule.builtin startingPosition.1 session.names).body .nil) } := by
  obtain ⟨hset, -, -, hpattern⟩ := compile_ok h
  obtain ⟨base, before, clause, body, hcompile, hcondition, hclause, hquery⟩ :=
    compilePattern_some hfilter hpattern
  rw [hrules] at hcompile
  obtain ⟨shape, forest, -, -, -, hbefore, -⟩ := ExpandTree.compile_ok hcompile
  obtain ⟨compiled, session, added, loose, rfl, hisolated, hmade, rfl, hnames⟩ :=
    compileFilter_isolated hs hrules
    hkey (hs.entitySet hset) (hbefore ▸ Forest.place_keeps) (expand_parted hcompile) hcondition
  exact ⟨base, before, compiled, session, added, loose, hcompile, hclause, hisolated, hmade, hnames, hquery⟩

/-- The names of a request with a condition: those of the expanded read, of the condition, and of the pattern
that binds the variables of the condition. -/
theorem compile_names (hfilter : request.effectiveFilter = some f) (h : reader.compile request = .ok query) :
    ∃ before compiled session added loose, query.condition = some compiled.clause ∧
      Filter.Isolated ⟨reader.schema, reader.rules, reader.key⟩ f startingPosition.1.scope {query.root}
        {query.root} ∅ { names := before } compiled session added loose ∧
      query.names.namespaces = added ∧ session.names.Grows query.names ∧
      query.names.Parted ({query.root} ∪ Naming.placesOf added) {k | k ∈ loose} ∧
      (query.root :: added.map (·.2.place)).Nodup ∧
      query.pattern.body.Each (Body.naming (query.names.Spans {query.root})) query.pattern.root := by
  obtain ⟨hset, hroot, -, -⟩ := compile_ok h
  obtain ⟨base, before, compiled, session, added, loose, hcompile, hclause, hisolated, hmade,
    hnames, hquery⟩ :=
    compile_filtered hs hrules hkey hfilter h
  obtain ⟨shape, forest, -, -, -, hbefore, -⟩ := ExpandTree.compile_ok hcompile
  have hnamespaces : before.namespaces = [] := hbefore ▸ Forest.place_keeps.namespaces
  have hgrows : session.names.Grows query.names := hnames ▸ Forest.place_keeps.grows
  have hplaced := hisolated.parted.place compiled.forest (hisolated.parted.root_lt (Or.inl rfl))
  rw [hroot]
  refine ⟨before, compiled, session, added, loose, hclause, hisolated, ?_, hgrows, ?_, ?_, ?_⟩
  · rw [← hnames, Forest.place_keeps.namespaces, hisolated.namespaces]
    simp [hnamespaces]
  · rw [← hnames]
    simpa using hplaced.1
  · refine List.nodup_cons.mpr ⟨fun hmem => ?_, hisolated.distinct⟩
    obtain ⟨entry, hentry, heq⟩ := List.mem_map.mp hmem
    have hlater := hisolated.places _ ⟨entry, hentry, heq⟩
    exact absurd ((expand_parted hcompile).root_lt rfl) (Nat.not_lt.mpr hlater)
  · rw [hquery]
    have hbase := expand_spans hs (hs.entitySet hset) hcompile (hisolated.grows.trans hgrows)
    refine .append hbase ⟨trivial, ?_, trivial⟩
    refine Forest.place_spans hs (hnames ▸ .refl _) ?_ hisolated.declared rfl .self
    exact hmade.within (fun a ha => by simp [Branch.IsProperty] at ha)
      fun name type found hl => by simp [Branch.IsProperty] at hl

/-- Scopes do not leak: the entities that the lambda variables of a condition are bound to, one for each `any`
in the order in which they are written, have trees that are disjoint from each other and from that of the
filtered entity, and no variable of such a tree stands outside of the `EXISTS` of its `any`. Every `null` is a
variable of its own that is in no tree and in no triple; all other variables are in the trees. -/
theorem compile_isolated (hfilter : request.effectiveFilter = some f)
    (h : reader.compile request = .ok query) : ∃ clause, query.condition = some clause ∧
      query.sparql = Query.text ⟨reader.schema.prefixes, query.pattern.group, some clause.text⟩ ∧
      query.names.namespaces.map Prod.fst = f.binders reader.key startingPosition.1.scope 0 ∧
      (∀ entry ∈ query.names.namespaces, query.names.defined? entry.1.1 entry.1.2 = some entry.2) ∧
      (query.root :: query.names.namespaces.map (·.2.place)).Pairwise
        (fun l l' => ∀ v, query.names.InTree l v → ¬ query.names.InTree l' v) ∧
      List.Forall₂ query.names.Encloses query.names.namespaces
        (clause.existentials query.pattern.group.vars) ∧
      (f.nulls clause).length = f.nullCount ∧ (f.nulls clause).Nodup ∧
      (∀ v ∈ f.nulls clause, (∀ l ∈ query.root :: query.names.namespaces.map (·.2.place),
        ¬ query.names.InTree l v) ∧ v ∉ query.pattern.group.words ∧
        ∀ x ∈ clause.existentials query.pattern.group.vars, v ∉ x.group.words) ∧
      (∀ v ∈ query.pattern.group.vars, query.names.InTree query.root v) ∧
      ∀ v ∈ clause.vars, v ∈ f.nulls clause ∨
        ∃ l ∈ query.root :: query.names.namespaces.map (·.2.place), query.names.InTree l v := by
  obtain ⟨before, compiled, session, added, loose, hcondition, hisolated, rfl, hgrows, hparted,
    hnodup, hbody⟩ :=
    compile_names hs hrules hkey hfilter h
  have htext := (compile_unquoted hs hrules h).1
  have hmain : ∀ v ∈ query.pattern.group.vars, query.names.InTree query.root v := by
    intro v hv
    obtain ⟨l, rfl, htree⟩ := Pattern.vars_spans hbody v hv
    exact htree
  have htops : ∀ {l}, l ∈ query.root :: query.names.namespaces.map (·.2.place) ↔
      l ∈ {query.root} ∪ Naming.placesOf query.names.namespaces := by
    intro l
    simp [Naming.placesOf]
  have hnulls : ∀ v ∈ f.nulls compiled.clause, isVariable v = true ∧
      ∀ l ∈ {query.root} ∪ Naming.placesOf query.names.namespaces, ¬ query.names.InTree l v := by
    intro v hv
    obtain ⟨k, hk, rfl⟩ := hisolated.exists_null hv
    exact ⟨isVariable_variableName k, fun l hl => hparted.not_inTree hl hk⟩
  refine ⟨compiled.clause, hcondition,
    by rw [htext, hcondition]; rfl, hisolated.binders, fun entry hentry => ?_, ?_,
    ?_, ?_, ?_, fun v hv => ⟨fun l hl => (hnulls v hv).2 l (htops.mp hl), fun hword => ?_,
      fun x hx hword => ?_⟩, hmain,
    fun v hv => ?_⟩
  · refine Naming.defined?_of_mem ?_ hentry
    rw [hisolated.binders]
    exact Filter.nodup_binders hkey f _ _
  · exact hnodup.imp_of_mem fun hl hl' hne v => hparted.disjoint (htops.mp hl) (htops.mp hl') hne
  · refine hisolated.enclosed hgrows hparted (Set.Subset.refl _) (Set.Subset.refl _) fun l hl v hv htree => ?_
    have hne : query.root ≠ l := by
      rintro rfl
      obtain ⟨entry, hentry, heq⟩ := hl
      exact (List.nodup_cons.mp hnodup).1 (List.mem_map.mpr ⟨entry, hentry, heq⟩)
    exact hparted.disjoint (Or.inl rfl) (Or.inr hl) hne (hmain v hv) htree
  · rw [hisolated.nulls, List.length_map, hisolated.count]
  · rw [hisolated.nulls]
    exact hisolated.nodup.map fun i k => variableName_injective
  · obtain ⟨hvariable, hnot⟩ := hnulls v hv
    exact hnot _ (Or.inl rfl) (hmain v (List.mem_filter.mpr ⟨hword, hvariable⟩))
  · obtain ⟨hvariable, hnot⟩ := hnulls v hv
    obtain ⟨l, hl, htree⟩ := hisolated.groups _ x hx v (List.mem_filter.mpr ⟨hword, hvariable⟩)
    exact hnot l hl (hgrows.inTree htree)
  · obtain hnull | ⟨l, hl, htree⟩ := hisolated.vars v hv
    · exact Or.inl (hisolated.nulls ▸ hnull)
    · exact Or.inr ⟨l, htops.mpr hl, hgrows.inTree htree⟩

end Compiled

/-- Things with a part that has no label, or has a part of its own that is labelled as the thing is: the inner
lambda variable shadows the outer one. -/
def shadowing : Filter :=
  .any ["Parts"] "x" (.or (.eq (.property ["x", "Label"]) .null)
    (.any ["x", "Parts"] "x" (.eq (.property ["x", "Label"]) (.property ["Label"]))))

theorem wellFormed_shadowing :
    ReadRequest.WellFormed Sample.schema ⟨"Things", .nil, some shadowing, none⟩ := by
  refine ⟨Sample.thing, rfl, by simp, ⟨by simp [ExpandTree.child?], by simp [ExpandTree.child?]⟩, ?_⟩
  rintro filter ⟨⟩
  refine ⟨Sample.thing.properties.get ⟨4, by decide⟩, Sample.thing, by decide, by decide, by decide,
    ⟨⟨Sample.thing.properties.get ⟨1, by decide⟩, by decide, by decide⟩, trivial⟩,
    Sample.thing.properties.get ⟨4, by decide⟩, Sample.thing, by decide, by decide, by decide,
    ⟨Sample.thing.properties.get ⟨1, by decide⟩, by decide, by decide⟩,
    Sample.thing.properties.get ⟨1, by decide⟩, by decide, by decide⟩

theorem compile_isolated_sample :
    Sample.schema.Accepted ∧ Function.Injective (id : Nat → ScopeKey) ∧ ∃ query clause,
      ReadRequest.effectiveFilter ⟨"Things", .nil, some shadowing, none⟩ = some shadowing ∧
      Reader.compile { schema := Sample.schema } ⟨"Things", .nil, some shadowing, none⟩ = .ok query ∧
      query.condition = some clause ∧
      query.names.namespaces.map Prod.fst = [(⟨⟨0⟩, 0, [0]⟩, "x"), (⟨⟨0⟩, 0, [1, 0]⟩, "x")] ∧
      List.Forall₂ query.names.Encloses query.names.namespaces
        (clause.existentials query.pattern.group.vars) ∧
      (shadowing.nulls clause).length = 1 ∧ (shadowing.nulls clause).Nodup := by
  obtain ⟨-, query, -, -, h, -⟩ | ⟨hnot, -⟩ := @compile_cases { schema := Sample.schema } Sample.accepted rfl
    Function.injective_id ⟨"Things", .nil, some shadowing, none⟩
  · obtain ⟨clause, hclause, -, hbinders, -, -, hencloses, hlength, hnodup, -⟩ :=
      compile_isolated Sample.accepted rfl Function.injective_id rfl h
    exact ⟨Sample.accepted, Function.injective_id, query, clause, rfl, h, hclause, hbinders, hencloses,
      hlength, hnodup⟩
  · exact absurd wellFormed_shadowing hnot

end Reader
end EntityGraph
