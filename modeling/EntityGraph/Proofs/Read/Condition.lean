import EntityGraph.Proofs.Filter.Renders
import EntityGraph.Proofs.Pattern.Full
import EntityGraph.Proofs.Read.Unfiltered

/-!
# Requests with a condition

A request with a condition is compiled to the pattern of the expanded read, with the pattern that binds
the variables of the condition as one more conjunct, and to the clause of the condition. Both patterns
are laid on one chart.
-/
namespace EntityGraph

open Sparql

theorem Body.Each.laid_empty {schema : Schema} {chart : Chart} {L : Outlook} {B : Body} {root : String}
    (h : B.Each (laid schema chart L) root) (hlambda : ∀ name, L.lambda name = none)
    (hlink : ∀ v, L.link v = none) : B.Each (laid schema chart ∅) root := by
  refine h.mono (fun _ _ _ => id) (fun r e he => ⟨Or.inl (he.1.resolve_right ?_), he.2⟩) fun r own hown => ?_
  · simp [hlink]
  · refine Or.inl (hown.resolve_right ?_)
    rintro ⟨-, name, q, t, hbound, -⟩
    simp [hlambda] at hbound

namespace Reader

variable {reader : Reader} {T : EntityType} {request : ReadRequest} {f : Filter} {query : CompiledQuery}

theorem compile_ok (h : reader.compile request = .ok query) :
    reader.schema.entitySet request.entitySet = .ok query.entityType ∧
      query.root = startingPosition.1.place ∧ query.expand = request.expand ∧
      reader.compilePattern query.entityType request = .ok (query.pattern, query.condition, query.names) := by
  unfold compile at h
  split at h
  · simp at h
  · next owner howner =>
      split at h
      · simp at h
      · split at h
        · simp at h
        · next pattern condition names hpattern =>
            obtain rfl := Except.ok.inj h
            exact ⟨howner, rfl, rfl, hpattern⟩

theorem compilePattern_none {pattern : Pattern} {condition : Option Clause} {names : Naming}
    (hfilter : request.effectiveFilter = none)
    (h : reader.compilePattern T request = .ok (pattern, condition, names)) :
    condition = none ∧ request.expand.compile reader.schema reader.rules T startingPosition.1
      startingPosition.2 = .ok (pattern, names) := by
  unfold compilePattern at h
  simp only [hfilter] at h
  split at h
  · simp at h
  · next pattern' names' hcompile =>
      obtain ⟨rfl, rfl, rfl⟩ : pattern' = pattern ∧ none = condition ∧ names' = names := by simpa using h
      exact ⟨rfl, hcompile⟩

theorem compilePattern_some {pattern : Pattern} {condition : Option Clause} {names : Naming}
    (hfilter : request.effectiveFilter = some f)
    (h : reader.compilePattern T request = .ok (pattern, condition, names)) :
    ∃ base before clause body, request.expand.compile reader.schema reader.rules T startingPosition.1
        startingPosition.2 = .ok (base, before) ∧
      reader.compileFilter T startingPosition.1 before f = .ok (clause, body, names) ∧
      condition = some clause ∧
      pattern = { base with
        body := base.body.append (.conjunct startingPosition.1.place.var body .nil) } := by
  unfold compilePattern at h
  simp only [hfilter] at h
  split at h
  · simp at h
  · next base before hcompile =>
      split at h
      · simp at h
      · next clause body names' hcondition =>
          obtain ⟨rfl, rfl, rfl⟩ : _ = pattern ∧ some clause = condition ∧ names' = names := by simpa using h
          exact ⟨base, before, clause, body, hcompile, hcondition, rfl, rfl⟩

theorem compile_unfiltered (h : reader.compile request = .ok query) : ∃ unfiltered,
    reader.compile { entitySet := request.entitySet, expand := request.expand } = .ok unfiltered ∧
      unfiltered.entityType = query.entityType := by
  obtain ⟨howner, -, -, hpattern⟩ := compile_ok h
  obtain ⟨pattern, names, hcompile⟩ : ∃ pattern names, request.expand.compile reader.schema reader.rules
      query.entityType startingPosition.1 startingPosition.2 = .ok (pattern, names) := by
    cases hfilter : request.effectiveFilter with
    | none => exact ⟨_, _, (compilePattern_none hfilter hpattern).2⟩
    | some f =>
        obtain ⟨base, before, -, -, hcompile, -⟩ := compilePattern_some hfilter hpattern
        exact ⟨base, before, hcompile⟩
  unfold compile
  simp only [howner, idFault?, compilePattern, hcompile, ReadRequest.effectiveFilter]
  exact ⟨_, rfl, rfl⟩

/-- What is known of a condition and its pattern. -/
structure Conditioned (schema : Schema) (T : EntityType) (f : Filter) (clause : Clause) (body : Body)
    (w w' : Survey) (vs : List String) : Prop where
  le : w ≤ w'
  sound : w'.Sound schema
  renders : ∃ b, f.Renders schema w' startingPosition.1.place T w.names.next (fun _ => none) clause b vs
  laid : body.Each (Body.laid schema w'.chart ∅) startingPosition.1.place.var
  narrow : body.Narrow
  targets : ∀ v ∈ vs, v ∈ body.targets

section Filter

variable (hs : reader.schema.Accepted) (hids : reader.schema.OwnIds) (hrules : reader.rules = Rule.builtin)
  (hkey : Function.Injective reader.key)

include hs hids hrules hkey

theorem compileFilter_ok {w : Survey} (hw : w.Sound reader.schema) (hstart : Survey.start T ≤ w)
    (hkeys : w.keys = ∅) {clause : Clause} {body : Body} {names : Naming}
    (h : reader.compileFilter T startingPosition.1 w.names f = .ok (clause, body, names)) :
    ∃ w' vs, w'.names = names ∧ Conditioned reader.schema T f clause body w w' vs := by
  have hkind : w.chart.kind startingPosition.1.place.var = some T :=
    (hstart.kind 0 Nat.zero_lt_one).trans (Survey.start_kind T)
  have hc : Filter.Compiling ⟨reader.schema, reader.rules, reader.key⟩ ⟨T.name, []⟩ startingPosition.1 T
      (fun _ => none) w { names := w.names } :=
    { sound := hw, names := rfl, keys := by simp [hkeys], kind := hkind, type := rfl, lambdas := by simp
      bound := by simp [Survey.Binds]
      unlinked := by simp
      known := by simp [startingPosition, Naming.rootScope] }
  dsimp only [compileFilter] at h
  split at h
  · simp at h
  · next compiled session hrun =>
      obtain ⟨w₁, vs, hcompiled⟩ :=
        (Filter.ends_compile hs hids hrules hkey f
          hc).of_run hrun
      have hsuits : compiled.forest.Suits reader.schema
        ⟨startingPosition.1.place.var, fun _ => none, fun _ => none⟩
          w₁ startingPosition.1 T :=
        (hcompiled.asks.mono fun _ _ h => (Filter.among_eq_some.mp h).2).suits rfl hcompiled.compiling.bound
          fun _ _ _ => id
      obtain ⟨w₂, hw₂, hfailure, hlaid⟩ :=
        Forest.place_suits hs hids hcompiled.compiling.sound hcompiled.compiling.kind hsuits
      rw [hcompiled.compiling.names] at hw₂ hfailure hlaid
      unfold Forest.placeAll at h
      simp only [hrules, hfailure] at h
      obtain ⟨rfl, rfl, rfl⟩ : compiled.clause = clause ∧ _ = body ∧ _ = names := by simpa using h
      refine ⟨w₂, vs, hw₂.names_eq, hcompiled.le.trans hw₂.le, hw₂.sound, ?_, ?_, ?_, fun v hv => ?_⟩
      · exact ⟨_, hcompiled.renders.mono hcompiled.compiling.sound hw₂.le⟩
      · exact hlaid.laid_empty (fun _ => rfl) fun _ => rfl
      · exact Forest.place_narrow (hcompiled.asks.single hs hcompiled.compiling.declared) _ _
      · refine Forest.place_targets hfailure (.refl _) ?_
        rw [← hw₂.names_eq]
        exact hcompiled.mentions v hv w₂ hw₂.le

/-- A request with a condition: the pattern of the expanded read, and the conjunct of the condition. -/
theorem compile_condition (hfilter : request.effectiveFilter = some f)
    (h : reader.compile request = .ok query) :
    ∃ w shape clause C vs, w.names = query.names ∧ Survey.start query.entityType ≤ w ∧
      query.condition = some clause ∧ query.pattern.root = startingPosition.1.place.var ∧
      Shape.ofExpand reader.schema query.entityType query.expand = .ok shape ∧
      shape.Tracked w.names startingPosition.1.place query.pattern.body ∧
      (∃ w₀, Conditioned reader.schema query.entityType f clause C w₀ w vs ∧
        Survey.start query.entityType ≤ w₀) ∧
      ∃ body : Body, body.Each (Body.laid reader.schema w.chart ∅) startingPosition.1.place.var ∧
        (startingPosition.1.place.var, C) ∈ body.conjuncts ∧
        query.pattern.body = query.entityType.withClass body := by
  obtain ⟨howner, -, hexpand, hpattern⟩ := compile_ok h
  have hT := hs.entitySet howner
  obtain ⟨base, before, clause, C, hcompile, hcondition, hclause, hquery⟩ :=
    compilePattern_some hfilter hpattern
  rw [hrules] at hcompile
  obtain ⟨w, shape, rfl, hstart, hw, hkeys, hroot, hshape, htracked, body, hlaid, hbody⟩ :=
    ExpandTree.compile_start hs hids hT hcompile
  obtain ⟨w', vs, hnames, hconditioned⟩ := compileFilter_ok hs hids hrules hkey hw hstart hkeys hcondition
  have hle := hconditioned.le
  rw [hexpand, hquery]
  refine ⟨w', shape, clause, C, vs, hnames, hstart.trans hle, hclause, hroot, hshape, ?_,
    ⟨w, hconditioned, hstart⟩, body.append (.conjunct startingPosition.1.place.var C .nil), ?_, ?_, ?_⟩
  · exact htracked.mono hle (Body.covers_append_left _ _)
  · rw [hroot] at hlaid
    exact (hlaid.laid_le hw hle).append ⟨Or.inl rfl, hconditioned.laid, trivial⟩
  · rw [Body.conjuncts_append]
    exact List.mem_append_right _ List.mem_cons_self
  · rw [hbody]
    unfold EntityType.withClass
    split <;> rfl

end Filter
end Reader
end EntityGraph
