import EntityGraph.Proofs.Pattern.Reach

/-!
# Every way through a pattern is taken

Where an assignment follows the edges of a pattern, there is for each way through the pattern a
solution inside the assignment that binds all variables of the way: the parts of the group that are
not on the way add some solution of their own, and an alternative on the way is the one that
the union takes.
-/
namespace EntityGraph

open Sparql

variable {chart : Chart} {data : Dataset} {env σ : Assignment}

namespace Sparql.Group

variable {D X W : Set String} {G : Group}

theorem Reaches.keep (h : Reaches data env σ D X G) : Reaches data env σ D (D ∪ X) G := by
  intro found μ hμ hw hD
  obtain ⟨ρ, hρ, hwρ, hsub, hX⟩ := h found μ hμ hw hD
  refine ⟨ρ, hρ, hwρ, hsub, ?_⟩
  rintro v (hv | hv)
  · exact hsub.isSome (hD v hv)
  · exact hX v hv

theorem Reaches.of_isNil {G' : Group} (h : Reaches data env σ ∅ W G') (hnil : G'.isNil = true)
    (hG : Reaches data env σ D ∅ G) : Reaches data env σ D W G := by
  obtain rfl : G' = nil := by
    cases G' with
    | nil => rfl
    | triple t rest => simp [isNil] at hnil
    | alternatives bodies rest => simp [isNil] at hnil
    | optional body rest => simp [isNil] at hnil
  obtain ⟨ν, hν, -, hW⟩ := h.exists_solution
  obtain rfl := List.mem_singleton.mp hν
  rw [Assignment.extend_nil] at hW
  intro found μ hμ hw hD
  obtain ⟨ρ, hρ, hwρ, hsub, -⟩ := hG found μ hμ hw hD
  exact ⟨ρ, hρ, hwρ, hsub, fun v hv => (Assignment.sub_extend env ρ).isSome (hW v hv)⟩

end Sparql.Group

namespace Body

open Sparql.Group

variable {root : String} {B : Body}

def hanging (root : String) (e : Edge) (below : Body) : Group :=
  (below.sections e.target ((below.ownAnchor? e.target).or (some (e.triple root)))).group

def braced (root : String) (inherited : Option Triple) (body : Body) : Group :=
  (body.repeatedAnchor root inherited).append
    (body.sections root ((body.ownAnchor? root).or inherited)).group

variable {anchor : Option Triple} {e : Edge} {below : Body} {W : Set String}

theorem reaches_below (ho : chart.Ordered) (hσ : env.Sub σ) (hB : B.Each (chart.fits env) root)
    (hf : B.Each (followed data σ) root) {n : Term} (hn : σ root = some n)
    (ha : Anchored data env σ root anchor) (he : (e, below) ∈ B.edges) (hopt : e.isOptional = false)
    (hW : Reaches data env σ {e.target} W (hanging root e below)) :
    Reaches data env σ {v | v ∈ B.plainTargets} W (B.sections root anchor).below := by
  induction B with
  | nil => simp [edges] at he
  | leaf predicate term rest ih => exact ih hB.2 hf.2 he
  | edge e' below' rest _ ih =>
      have hrest := sections_reach ho hσ hB.2.2 hf.2.2 hn ha
      cases hopt' : e'.isOptional with
      | true =>
          obtain ⟨rfl, -⟩ | he := by simpa only [edges, List.mem_cons, Prod.mk.injEq] using he
          · simp [hopt] at hopt'
          · simpa [sections, plainTargets, hopt'] using ih hB.2.2 hf.2.2 he
      | false =>
          rw [plainTargets_edge hopt']
          simp only [sections, hopt', Bool.false_eq_true, if_false]
          obtain ⟨rfl, rfl⟩ | he := by simpa only [edges, List.mem_cons, Prod.mk.injEq] using he
          · exact (hW.mono Set.subset_union_left subset_rfl).append_left
              (hrest.below.mono (Set.subset_union_right.trans Set.subset_union_left) subset_rfl)
          · obtain ⟨m, hm, hlead⟩ | ⟨hopt'', -⟩ := hf.1 n hn
            · have hanchor := anchored_edge ho hσ hB.1 hn hm hlead
              have hhead := (sections_reach ho hσ hB.2.1 hf.2.1 hm
                (hanchor.or ho hσ hB.2.1 hf.2.1 hm)).group
              exact (hhead.mono Set.subset_union_left (Set.empty_subset _)).append_right
                ((ih hB.2.2 hf.2.2 he).mono Set.subset_union_right subset_rfl)
            · simp [hopt'] at hopt''
  | alternative isSlot body rest _ ih =>
      simp only [sections]
      split <;> exact ih hB.2 hf.2 he
  | conjunct own body rest _ ih =>
      simp only [sections]
      generalize (body.repeatedAnchor own (if own = root then anchor else none)).append _ = inner
      split <;> exact ih hB.2.2 hf.2.2 he

theorem reaches_optionals (ho : chart.Ordered) (hσ : env.Sub σ) (hB : B.Each (chart.fits env) root)
    (hf : B.Each (followed data σ) root) {n : Term} (hn : σ root = some n)
    (ha : Anchored data env σ root anchor) (he : (e, below) ∈ B.edges) (hopt : e.isOptional = true)
    (hW : Reaches data env σ ∅ W (.triple (e.triple root) (hanging root e below))) :
    Reaches data env σ {root} W (B.sections root anchor).optionals := by
  induction B with
  | nil => simp [edges] at he
  | leaf predicate term rest ih => exact ih hB.2 hf.2 he
  | edge e' below' rest _ ih =>
      have hrest := sections_reach ho hσ hB.2.2 hf.2.2 hn ha
      have hhead := (sections_reach (B := edge e' below' nil) ho hσ ⟨hB.1, hB.2.1, trivial⟩
        ⟨hf.1, hf.2.1, trivial⟩ hn ha).optionals
      cases hopt' : e'.isOptional with
      | true =>
          simp only [sections, hopt', if_true] at hhead ⊢
          obtain ⟨rfl, rfl⟩ | he := by simpa only [edges, List.mem_cons, Prod.mk.injEq] using he
          · exact (reaches_optional hW).append_left
              (hrest.optionals.mono Set.subset_union_left subset_rfl)
          · exact hhead.append_right (ih hB.2.2 hf.2.2 he)
      | false =>
          obtain ⟨rfl, -⟩ | he := by simpa only [edges, List.mem_cons, Prod.mk.injEq] using he
          · simp [hopt] at hopt'
          · simpa [sections, hopt'] using ih hB.2.2 hf.2.2 he
  | alternative isSlot body rest _ ih =>
      simp only [sections]
      split <;> exact ih hB.2 hf.2 he
  | conjunct own body rest _ ih =>
      simp only [sections]
      generalize (body.repeatedAnchor own (if own = root then anchor else none)).append _ = inner
      split <;> exact ih hB.2.2 hf.2.2 he

theorem braced_mem_alternatives {body : Body} (hb : body ∈ B.alternatives) :
    (braced root anchor body).isNil = true ∨
      braced root anchor body ∈ (B.sections root anchor).alternatives := by
  induction B with
  | nil => simp [alternatives] at hb
  | leaf predicate term rest ih => exact ih hb
  | edge e' below' rest _ ih =>
      simp only [sections]
      split <;> exact ih hb
  | alternative isSlot body' rest _ ih =>
      simp only [sections]
      obtain rfl | hb := List.mem_cons.mp hb
      · split
        · next hnil => exact Or.inl hnil
        · exact Or.inr List.mem_cons_self
      · split
        · exact ih hb
        · exact (ih hb).imp id (List.mem_cons_of_mem _)
  | conjunct own body' rest _ ih =>
      simp only [sections]
      generalize (body'.repeatedAnchor own (if own = root then anchor else none)).append _ = inner
      split <;> exact ih hb

/-- After the plain edges, the group of a pattern leads to the variables in `W`. -/
structure Onward (data : Dataset) (env σ : Assignment) (root : String) (anchor : Option Triple)
    (W : Set String) (B : Body) : Prop where
  rest : Reaches data env σ ({root} ∪ {v | v ∈ B.plainTargets}) W
    ((B.sections root anchor).middle.append (B.sections root anchor).optionals)
  middle : B.hasOptionalEdge = false →
    Reaches data env σ {v | v ∈ B.plainTargets} W (B.sections root anchor).middle

theorem Onward.of_middle (h : SectionsReach data env σ root B (B.sections root anchor))
    (hW : Reaches data env σ {v | v ∈ B.plainTargets} W (B.sections root anchor).middle) :
    Onward data env σ root anchor W B :=
  ⟨(hW.mono Set.subset_union_right subset_rfl).append_left
    (h.optionals.mono (Set.subset_union_left.trans Set.subset_union_left) subset_rfl), fun _ => hW⟩

theorem hasOptionalEdge_of_mem_edges (he : (e, below) ∈ B.edges) (hopt : e.isOptional = true) :
    B.hasOptionalEdge = true := by
  induction B with
  | nil => simp [edges] at he
  | leaf predicate term rest ih => exact ih he
  | edge e' below' rest _ ih =>
      obtain ⟨rfl, -⟩ | he := by simpa only [edges, List.mem_cons, Prod.mk.injEq] using he
      · simp [hasOptionalEdge, hopt]
      · simp [hasOptionalEdge, ih he]
  | alternative isSlot body rest _ ih => exact ih he
  | conjunct own body rest _ ih => exact ih he

theorem onward_of_binds (ho : chart.Ordered) (hσ : env.Sub σ) {vs : List String}
    (hvs : B.Binds vs) (hB : B.Each (chart.fits env) root) (hf : B.Each (followed data σ) root)
    {n : Term} (hn : σ root = some n) (ha : Anchored data env σ root anchor)
    (hbound : ∀ v ∈ vs, (σ v).isSome) : Onward data env σ root anchor {v | v ∈ vs} B := by
  have h := sections_reach ho hσ hB hf hn ha
  induction hvs generalizing root anchor n with
  | plain hplain => exact .of_middle h (h.middle.keep.mono subset_rfl fun v hv => Or.inl (hplain v hv))
  | @edge B below e vs ws he _ hsub hvs ih =>
      obtain ⟨hl, hbelow⟩ := hB.of_mem_edges he
      obtain ⟨hfe, hfbelow⟩ := hf.of_mem_edges he
      obtain ⟨m, hm, hlead⟩ : ∃ m, σ e.target = some m ∧ data.Leads e.hop n m := by
        obtain h | ⟨-, hnone, -⟩ := hfe n hn
        · exact h
        · have := hbound _ (hsub _ List.mem_cons_self)
          simp [hnone] at this
      have hanchor := (anchored_edge ho hσ hl hn hm hlead).or ho hσ hbelow hfbelow hm
      have hinner := sections_reach ho hσ hbelow hfbelow hm hanchor
      have hws := ih hbelow hfbelow hm hanchor (fun v hv => hbound v (hsub v (List.mem_cons_of_mem _ hv)))
        hinner
      have hhanging : Reaches data env σ {e.target} {v | v ∈ ws} (hanging root e below) :=
        (hinner.group_of hws.rest).mono subset_rfl Set.subset_union_right
      cases hopt : e.isOptional with
      | false =>
          have htarget := mem_plainTargets_of_mem_edges he hopt
          have hmiddle := (reaches_below ho hσ hB hf hn ha he hopt hhanging).append_left
            ((h.conjuncts.append_right h.union).mono (Set.empty_subset _) subset_rfl)
          refine .of_middle h (hmiddle.keep.mono subset_rfl fun v hv => ?_)
          obtain hv | hv := hvs v hv
          · exact Or.inl hv
          · obtain rfl | hv := List.mem_cons.mp hv
            · exact Or.inl htarget
            · exact Or.inr hv
      | true =>
          have htriple : Reaches data env σ ∅ ({root, e.target} ∪ {v | v ∈ ws})
              (.triple (e.triple root) (hanging root e below)) :=
            (reaches_triple_edge ho hσ hl hn hm hlead).append (hhanging.mono (by simp) subset_rfl)
          have hoptionals := reaches_optionals ho hσ hB hf hn ha he hopt htriple
          refine ⟨?_, by simp [hasOptionalEdge_of_mem_edges he hopt]⟩
          have hrest := (h.middle.mono Set.subset_union_right subset_rfl).append_right
            (hoptionals.mono Set.subset_union_left subset_rfl)
          refine hrest.keep.mono subset_rfl fun v hv => ?_
          obtain hv | hv := hvs v hv
          · exact Or.inl (Or.inr hv)
          · obtain rfl | hv := List.mem_cons.mp hv
            · exact Or.inr (Or.inl (Or.inr rfl))
            · exact Or.inr (Or.inr hv)
  | @alternative B body vs ws hb _ hsub hvs ih =>
      have hbody := hB.of_mem_alternatives hb
      have hfbody := hf.of_mem_alternatives hb
      have hanchor := ha.or ho hσ hbody hfbody hn
      have hinner := sections_reach ho hσ hbody hfbody hn hanchor
      have hws := ih hbody hfbody hn hanchor (fun v hv => hbound v (hsub v hv)) hinner
      have hbraced : Reaches data env σ ∅ {v | v ∈ ws} (braced root anchor body) :=
        (hinner.braced_of ha hws.rest hws.middle).mono subset_rfl Set.subset_union_right
      have hmiddle : Reaches data env σ {v | v ∈ B.plainTargets} {v | v ∈ ws}
          (B.sections root anchor).middle := by
        obtain hnil | hmem := braced_mem_alternatives hb
        · exact hbraced.of_isNil hnil h.middle
        · unfold Sections.middle
          rw [if_neg (by simpa using List.ne_nil_of_mem hmem)]
          exact h.below.append_right ((h.conjuncts.append_right
            (reaches_alternatives hmem hbraced)).mono (Set.empty_subset _) subset_rfl)
      refine .of_middle h (hmiddle.keep.mono subset_rfl fun v hv => ?_)
      exact hvs v hv

end Body

namespace Pattern

theorem group_eq_braced (p : Pattern) :
    p.group = Body.braced p.root (p.body.ownAnchor? p.root) p.body := by
  have hrepeat : p.body.repeatedAnchor p.root (p.body.ownAnchor? p.root) = .nil := by
    unfold Body.repeatedAnchor
    split
    · next h => simp [h] at *
    · rfl
  rw [Body.braced, hrepeat, Option.or_self]
  rfl

theorem anchored (ho : chart.Ordered) (hσ : env.Sub σ) {p : Pattern}
    (hp : p.body.Each (chart.fits env) p.root) (hf : p.body.Each (Body.followed data σ) p.root)
    {n : Term} (hn : σ p.root = some n)
    (ha : (p.body.ownAnchor? p.root).isSome ∨ (env p.root).isSome) :
    Body.Anchored data env σ p.root (p.body.ownAnchor? p.root) := by
  refine ⟨fun a hown => Body.reaches_ownAnchor? ho hσ hp hf hn hown, fun hnone => ?_⟩
  exact ha.resolve_left (by simp [hnone])

/-- For every way through a pattern there is a solution that binds the variables of the way, if an
assignment follows the edges of the pattern. -/
theorem exists_solution_of_binds (ho : chart.Ordered) (hσ : env.Sub σ) {p : Pattern}
    (hp : p.body.Each (chart.fits env) p.root) (hf : p.body.Each (Body.followed data σ) p.root)
    {n : Term} (hn : σ p.root = some n)
    (ha : (p.body.ownAnchor? p.root).isSome ∨ (env p.root).isSome) {vs : List String}
    (hvs : p.body.Binds vs) (hbound : ∀ v ∈ vs, (σ v).isSome) :
    ∃ μ ∈ p.group.solutions data env, μ.Within σ ∧ ∀ v ∈ vs, (env.extend μ v).isSome := by
  have hanchor := anchored ho hσ hp hf hn ha
  have hanchor' := hanchor.or ho hσ hp hf hn
  have honward := Body.onward_of_binds ho hσ hvs hp hf hn hanchor' hbound
  have hreach := (Body.sections_reach ho hσ hp hf hn hanchor').braced_of hanchor honward.rest
    honward.middle
  rw [group_eq_braced]
  exact (hreach.mono subset_rfl Set.subset_union_right).exists_solution

end Pattern
end EntityGraph
