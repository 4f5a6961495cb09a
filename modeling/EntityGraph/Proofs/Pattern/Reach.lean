import EntityGraph.Proofs.Pattern.Soundness

/-!
# Solutions inside an assignment

Let an assignment follow every edge of a pattern that the data have, from every variable that it
gives a term to. Then the group of the pattern has a solution inside the assignment. All parts of
a group can choose their solutions inside the same assignment, so that they are compatible; an
optional edge that the assignment does not follow is not in the data, and the solution so far is
kept because it binds the root of the edge. For the latter the groups in braces need their anchors.
-/
namespace EntityGraph

open Sparql

variable {chart : Chart} {data : Dataset} {env σ : Assignment}

/-- Inside `σ`, solutions that bind the variables in `D` are extended to one that also binds
those in `X`. -/
def Sparql.Group.Reaches (data : Dataset) (env σ : Assignment) (D X : Set String) (G : Group) :
    Prop :=
  ∀ (found : List Solution) (μ : Solution), μ ∈ found → μ.Within σ →
    (∀ v ∈ D, (env.extend μ v).isSome) →
      ∃ ρ ∈ G.extend data env found, ρ.Within σ ∧ (env.extend μ).Sub (env.extend ρ) ∧
        ∀ v ∈ X, (env.extend ρ v).isSome

namespace Sparql.Group

variable {D X Y : Set String} {G H : Group}

theorem reaches_nil : Reaches data env σ D D nil :=
  fun _ μ hμ hw hD => ⟨μ, hμ, hw, Assignment.sub_refl _, hD⟩

theorem Reaches.mono {D' X' : Set String} (h : Reaches data env σ D X G) (hD : D ⊆ D')
    (hX : X' ⊆ X) : Reaches data env σ D' X' G := by
  intro found μ hμ hw hbound
  obtain ⟨ρ, hρ, hw', hsub, hX'⟩ := h found μ hμ hw fun v hv => hbound v (hD hv)
  exact ⟨ρ, hρ, hw', hsub, fun v hv => hX' v (hX hv)⟩

theorem Reaches.append (hG : Reaches data env σ D X G) (hH : Reaches data env σ (D ∪ X) Y H) :
    Reaches data env σ D (X ∪ Y) (G.append H) := by
  intro found μ hμ hw hD
  obtain ⟨ρ, hρ, hwρ, hsubρ, hX⟩ := hG found μ hμ hw hD
  have hDX : ∀ v ∈ D ∪ X, (env.extend ρ v).isSome := by
    rintro v (hv | hv)
    · exact hsubρ.isSome (hD v hv)
    · exact hX v hv
  obtain ⟨τ, hτ, hwτ, hsubτ, hY⟩ := hH _ ρ hρ hwρ hDX
  refine ⟨τ, by rwa [extend_append], hwτ, hsubρ.trans hsubτ, ?_⟩
  rintro v (hv | hv)
  · exact hsubτ.isSome (hX v hv)
  · exact hY v hv

theorem Reaches.append_right (hG : Reaches data env σ D ∅ G) (hH : Reaches data env σ D Y H) :
    Reaches data env σ D Y (G.append H) :=
  (hG.append (hH.mono Set.subset_union_left subset_rfl)).mono subset_rfl Set.subset_union_right

theorem Reaches.append_left (hG : Reaches data env σ D X G) (hH : Reaches data env σ (D ∪ X) ∅ H) :
    Reaches data env σ D X (G.append H) :=
  (hG.append hH).mono subset_rfl Set.subset_union_left

theorem Reaches.exists_solution (h : Reaches data env σ ∅ X G) :
    ∃ ν ∈ G.solutions data env, ν.Within σ ∧ ∀ v ∈ X, (env.extend ν v).isSome := by
  obtain ⟨ν, hν, hw, -, hX⟩ :=
    h [[]] [] (List.mem_singleton.mpr rfl) (Solution.within_nil σ) (by simp)
  exact ⟨ν, hν, hw, hX⟩

theorem reaches_of_member {ν : Solution} (hw : ν.Within σ) (hX : ∀ v ∈ X, (env.extend ν v).isSome)
    (hG : ∀ (found : List Solution) (μ : Solution), μ ∈ found → μ.compatible ν = true →
      μ.merge ν ∈ G.extend data env found) : Reaches data env σ D X G := by
  intro found μ hμ hwμ _
  have hc := hwμ.compatible hw
  exact ⟨μ.merge ν, hG found μ hμ hc, hwμ.merge hw, Assignment.extend_sub_merge_left env μ ν,
    fun v hv => (Assignment.extend_sub_merge_right env hc).isSome (hX v hv)⟩

theorem reaches_alternatives {bodies : List Group} {body : Group} (hb : body ∈ bodies)
    (h : Reaches data env σ ∅ X body) : Reaches data env σ D X (alternatives bodies nil) := by
  obtain ⟨ν, hν, hw, hX⟩ := h.exists_solution
  refine reaches_of_member hw hX fun found μ hμ hc => ?_
  exact mem_join.mpr ⟨μ, hμ, ν, mem_unionSolutions.mpr ⟨body, hb, hν⟩, hc, rfl⟩

theorem reaches_optional {body : Group} (h : Reaches data env σ ∅ X body) :
    Reaches data env σ D X (optional body nil) := by
  obtain ⟨ν, hν, hw, hX⟩ := h.exists_solution
  refine reaches_of_member hw hX fun found μ hμ hc => ?_
  exact mem_leftJoin.mpr (Or.inl ⟨μ, hμ, ν, hν, hc, rfl⟩)

theorem reaches_triple_edge (ho : chart.Ordered) (hσ : env.Sub σ) {root : String} {e : Edge}
    (hl : chart.link e.target = some (root, e.hop)) {n m : Term} (hn : σ root = some n)
    (hm : σ e.target = some m) (he : data.Leads e.hop n m) :
    Reaches data env σ D {root, e.target} (triple (e.triple root) nil) := by
  obtain ⟨hvt, hvr⟩ := ho.isVariable_link hl
  obtain ⟨ν, hν, hw, hr, ht⟩ := Dataset.exists_matching_edge hσ hvr hvt hn hm he
  refine reaches_of_member hw ?_ fun found μ hμ hc => mem_join.mpr ⟨μ, hμ, ν, hν, hc, rfl⟩
  rintro v (rfl | rfl)
  · exact hr
  · exact ht

theorem reaches_triple_leaf (hσ : env.Sub σ) {root predicate term : String}
    (hr : isVariable root = true) (ht : isVariable term = false) {n : Term} (hn : σ root = some n)
    (hs : ⟨n, data.resolve predicate, data.resolve term⟩ ∈ data.statements) :
    Reaches data env σ D {root} (triple ⟨root, predicate, term⟩ nil) := by
  obtain ⟨ν, hν, hw, ha, -⟩ := Dataset.exists_matching hσ (t := ⟨root, predicate, term⟩) hs
    ((Dataset.denotes?_of_isVariable hr).trans hn) (Dataset.denotes?_of_not_isVariable ht)
  refine reaches_of_member hw ?_ fun found μ hμ hc => mem_join.mpr ⟨μ, hμ, ν, hν, hc, rfl⟩
  rintro v rfl
  rw [Dataset.denotes?_of_isVariable hr] at ha
  simp [ha]

/-- Where the edge is not in the data, its optional group has no solution that is compatible
with those that bind its root. -/
theorem reaches_optional_missing (ho : chart.Ordered) (hσ : env.Sub σ) {root : String} {e : Edge}
    (hl : chart.link e.target = some (root, e.hop)) {n : Term} (hn : σ root = some n)
    (he : ∀ m, ¬ data.Leads e.hop n m) (hroot : root ∈ D) (inner : Group) :
    Reaches data env σ D ∅ (optional (triple (e.triple root) inner) nil) := by
  obtain ⟨hvt, hvr⟩ := ho.isVariable_link hl
  intro found μ hμ hw hD
  refine ⟨μ, mem_leftJoin.mpr (Or.inr ⟨hμ, ?_⟩), hw, Assignment.sub_refl _, by simp⟩
  intro ν hν
  by_contra hc
  rw [Bool.not_eq_false] at hc
  change ν ∈ inner.extend data env (join [[]] (data.matching env (e.triple root))) at hν
  obtain ⟨ν₀, hν₀, hsub⟩ := exists_sub_of_mem_extend hν
  obtain ⟨ι, -, κ, hκ, hcκ, rfl⟩ := mem_join.mp hν₀
  obtain ⟨n', m, hn', -, hlead, -⟩ := Dataset.mem_matching_edge hvr hvt hκ
  have hνroot := hsub root n' (Assignment.extend_sub_merge_right env hcκ root n' hn')
  have hμroot : env.extend μ root = some n := by
    obtain ⟨t, ht⟩ := Option.isSome_iff_exists.mp (hD root hroot)
    rw [ht, ← hn]
    exact (hσ.extend hw root t ht).symm
  have hμν := Assignment.extend_sub_merge_left env μ ν root n hμroot
  have hνμ := Assignment.extend_sub_merge_right env hc root n' hνroot
  obtain rfl : n = n' := Option.some.inj (hμν.symm.trans hνμ)
  exact he m hlead

end Sparql.Group

namespace Body

open Sparql.Group

/-- From the root of every edge that has a term, the edge is followed, or it is optional and not in
the data. -/
def followed (data : Dataset) (σ : Assignment) : Condition where
  leaf root predicate term := ∀ n, σ root = some n →
    ⟨n, data.resolve predicate, data.resolve term⟩ ∈ data.statements
  edge root e := ∀ n, σ root = some n →
    (∃ m, σ e.target = some m ∧ data.Leads e.hop n m) ∨
      (e.isOptional = true ∧ σ e.target = none ∧ ∀ m, ¬ data.Leads e.hop n m)
  conjunct _ _ := True

/-- A pattern in braces at `root` can bind its root: it has an anchor, or its root is bound outside. -/
def Anchored (data : Dataset) (env σ : Assignment) (root : String) (anchor : Option Triple) : Prop :=
  (∀ a, anchor = some a → Reaches data env σ ∅ {root} (.triple a .nil)) ∧
    (anchor = none → (env root).isSome)

structure SectionsReach (data : Dataset) (env σ : Assignment) (root : String) (B : Body)
    (s : Sections) : Prop where
  leaves : Reaches data env σ ∅ {v | v = root ∧ (B.firstLeaf? root).isSome} s.leaves
  plain : Reaches data env σ ∅
    ({v | v ∈ B.plainTargets} ∪ {v | v = root ∧ (B.firstPlainEdge? root).isSome}) s.plain
  below : Reaches data env σ {v | v ∈ B.plainTargets} ∅ s.below
  conjuncts : Reaches data env σ ∅ ∅ s.conjuncts
  alternatives : ∀ body ∈ s.alternatives, Reaches data env σ ∅ ∅ body
  optionals : Reaches data env σ {root} ∅ s.optionals
  optionals_nil : B.hasOptionalEdge = false → s.optionals = .nil

variable {root : String} {B : Body} {s : Sections}

/-- The group between the plain edges and the optional ones. -/
def Sections.middle (s : Sections) : Group :=
  s.below.append (s.conjuncts.append
    (if s.alternatives.isEmpty then .nil else .alternatives s.alternatives .nil))

theorem Sections.group_eq (s : Sections) :
    s.group = s.leaves.append (s.plain.append (s.middle.append s.optionals)) := by
  simp only [Sections.group, Sections.middle, Group.append_assoc]

theorem SectionsReach.union (h : SectionsReach data env σ root B s) : Reaches data env σ ∅ ∅
    (if s.alternatives.isEmpty then .nil else .alternatives s.alternatives .nil) := by
  split
  · exact reaches_nil
  · next hne =>
      obtain ⟨body, hbody⟩ := List.exists_mem_of_ne_nil _ (by simpa using hne)
      exact reaches_alternatives hbody (h.alternatives body hbody)

theorem SectionsReach.middle (h : SectionsReach data env σ root B s) :
    Reaches data env σ {v | v ∈ B.plainTargets} ∅ s.middle :=
  h.below.append_right ((h.conjuncts.append_right h.union).mono (Set.empty_subset _) subset_rfl)

theorem SectionsReach.group_of {X : Set String} (h : SectionsReach data env σ root B s)
    (hrest : Reaches data env σ ({root} ∪ {v | v ∈ B.plainTargets}) X (s.middle.append s.optionals)) :
    Reaches data env σ {root} ({v | v ∈ B.plainTargets} ∪ X) s.group := by
  rw [s.group_eq]
  refine (h.leaves.mono (Set.empty_subset _) (Set.empty_subset _)).append_right ?_
  refine (h.plain.mono (Set.empty_subset _) Set.subset_union_left).append ?_
  exact hrest

theorem SectionsReach.rest (h : SectionsReach data env σ root B s) :
    Reaches data env σ ({root} ∪ {v | v ∈ B.plainTargets}) ∅ (s.middle.append s.optionals) :=
  (h.middle.mono Set.subset_union_right subset_rfl).append_right
    (h.optionals.mono Set.subset_union_left subset_rfl)

theorem SectionsReach.group (h : SectionsReach data env σ root B s) :
    Reaches data env σ {root} {v | v ∈ B.plainTargets} s.group :=
  (h.group_of h.rest).mono subset_rfl Set.subset_union_left

theorem SectionsReach.braced_of {X : Set String} (h : SectionsReach data env σ root B s)
    {inherited : Option Triple} (ha : Anchored data env σ root inherited)
    (hrest : Reaches data env σ ({root} ∪ {v | v ∈ B.plainTargets}) X (s.middle.append s.optionals))
    (hmiddle : B.hasOptionalEdge = false →
      Reaches data env σ {v | v ∈ B.plainTargets} X s.middle) :
    Reaches data env σ ∅ ({v | v ∈ B.plainTargets} ∪ X)
      ((B.repeatedAnchor root inherited).append s.group) := by
  cases hopt : B.hasOptionalEdge with
  | false =>
      -- without optional edges nothing depends on the root being bound
      have hanchor : B.repeatedAnchor root inherited = .nil := by
        unfold repeatedAnchor
        split
        · simp [hopt]
        · rfl
      have hend : s.middle.append s.optionals = s.middle := by
        rw [h.optionals_nil hopt]
        simp only [Sections.middle, Group.append_assoc]
        split <;> rfl
      rw [hanchor, s.group_eq, hend]
      refine (h.leaves.mono subset_rfl (Set.empty_subset _)).append_right ?_
      refine (h.plain.mono subset_rfl Set.subset_union_left).append ?_
      simpa using hmiddle hopt
  | true =>
      cases hown : B.ownAnchor? root with
      | none =>
          cases hin : inherited with
          | none =>
              -- the root is bound outside
              have hbound := ha.2 hin
              have hrepeat : B.repeatedAnchor root none = .nil := by
                simp [repeatedAnchor, hown]
              rw [hrepeat]
              intro found μ hμ hw hD
              refine h.group_of hrest found μ hμ hw ?_
              rintro v rfl
              exact (Assignment.sub_extend env μ).isSome hbound
          | some a =>
              have hrepeat : B.repeatedAnchor root (some a) = .triple a .nil := by
                simp [repeatedAnchor, hown, hopt]
              rw [hrepeat]
              refine ((ha.1 a hin).append ?_).mono subset_rfl Set.subset_union_right
              simpa using h.group_of hrest
      | some a =>
          have hrepeat : B.repeatedAnchor root inherited = .nil := by
            simp [repeatedAnchor, hown]
          rw [hrepeat, s.group_eq]
          change Reaches data env σ ∅ _ (s.leaves.append _)
          cases hleaf : B.firstLeaf? root with
          | some l =>
              have hleaves : Reaches data env σ ∅ {root} s.leaves :=
                h.leaves.mono subset_rfl fun v hv => ⟨hv, by simp [hleaf]⟩
              refine (hleaves.append ?_).mono subset_rfl Set.subset_union_right
              refine (h.plain.mono (Set.empty_subset _) Set.subset_union_left).append ?_
              simpa using hrest
          | none =>
              have hplain : (B.firstPlainEdge? root).isSome := by
                simpa [ownAnchor?, hleaf] using congrArg Option.isSome hown
              refine (h.leaves.mono subset_rfl (Set.empty_subset _)).append_right ?_
              refine (h.plain.append (Y := X) (hrest.mono ?_ subset_rfl)).mono subset_rfl ?_
              · rintro v (rfl | hv)
                · exact Or.inr (Or.inr ⟨rfl, hplain⟩)
                · exact Or.inr (Or.inl hv)
              · rintro v (hv | hv)
                · exact Or.inl (Or.inl hv)
                · exact Or.inr hv

theorem SectionsReach.braced (h : SectionsReach data env σ root B s)
    {inherited : Option Triple} (ha : Anchored data env σ root inherited) :
    Reaches data env σ ∅ ∅ ((B.repeatedAnchor root inherited).append s.group) :=
  (h.braced_of ha h.rest fun _ => h.middle).mono subset_rfl (Set.empty_subset _)

theorem reaches_firstLeaf? (hσ : env.Sub σ) (hB : B.Each (chart.fits env) root)
    (hf : B.Each (followed data σ) root) {n : Term} (hn : σ root = some n) {a : Triple}
    (ha : B.firstLeaf? root = some a) : Reaches data env σ ∅ {root} (.triple a .nil) := by
  induction B with
  | nil => simp [firstLeaf?] at ha
  | leaf predicate term rest ih =>
      obtain rfl : (⟨root, predicate, term⟩ : Triple) = a := by simpa [firstLeaf?] using ha
      exact reaches_triple_leaf hσ hB.1.1 hB.1.2 hn (hf.1 n hn)
  | edge e below rest _ ih => exact ih hB.2.2 hf.2.2 ha
  | alternative isSlot body rest _ ih => exact ih hB.2 hf.2 ha
  | conjunct own body rest _ ih => exact ih hB.2.2 hf.2.2 ha

theorem reaches_firstPlainEdge? (ho : chart.Ordered) (hσ : env.Sub σ)
    (hB : B.Each (chart.fits env) root) (hf : B.Each (followed data σ) root) {n : Term}
    (hn : σ root = some n) {a : Triple} (ha : B.firstPlainEdge? root = some a) :
    Reaches data env σ ∅ {root} (.triple a .nil) := by
  induction B with
  | nil => simp [firstPlainEdge?] at ha
  | leaf predicate term rest ih => exact ih hB.2 hf.2 ha
  | edge e below rest _ ih =>
      unfold firstPlainEdge? at ha
      split at ha
      · exact ih hB.2.2 hf.2.2 ha
      · next hopt =>
          obtain rfl : e.triple root = a := by simpa using ha
          obtain ⟨m, hm, he⟩ | ⟨hopt', -⟩ := hf.1 n hn
          · exact (reaches_triple_edge ho hσ hB.1 hn hm he).mono subset_rfl (by simp)
          · exact absurd hopt' hopt
  | alternative isSlot body rest _ ih => exact ih hB.2 hf.2 ha
  | conjunct own body rest _ ih => exact ih hB.2.2 hf.2.2 ha

theorem reaches_ownAnchor? (ho : chart.Ordered) (hσ : env.Sub σ)
    (hB : B.Each (chart.fits env) root) (hf : B.Each (followed data σ) root) {n : Term}
    (hn : σ root = some n) {a : Triple} (ha : B.ownAnchor? root = some a) :
    Reaches data env σ ∅ {root} (.triple a .nil) := by
  unfold ownAnchor? at ha
  cases hl : B.firstLeaf? root with
  | some a' =>
      rw [hl, Option.some_or] at ha
      exact reaches_firstLeaf? hσ hB hf hn (hl.trans ha)
  | none =>
      rw [hl, Option.none_or] at ha
      exact reaches_firstPlainEdge? ho hσ hB hf hn ha

theorem Anchored.or (ho : chart.Ordered) (hσ : env.Sub σ) (hB : B.Each (chart.fits env) root)
    (hf : B.Each (followed data σ) root) {n : Term} (hn : σ root = some n)
    {inherited : Option Triple} (h : Anchored data env σ root inherited) :
    Anchored data env σ root ((B.ownAnchor? root).or inherited) := by
  cases hown : B.ownAnchor? root with
  | none => simpa using h
  | some a =>
      refine ⟨fun a' ha' => ?_, by simp⟩
      obtain rfl : a = a' := by simpa using ha'
      exact reaches_ownAnchor? ho hσ hB hf hn hown

theorem anchored_edge (ho : chart.Ordered) (hσ : env.Sub σ) {e : Edge}
    (hl : chart.link e.target = some (root, e.hop)) {n m : Term} (hn : σ root = some n)
    (hm : σ e.target = some m) (he : data.Leads e.hop n m) :
    Anchored data env σ e.target (some (e.triple root)) := by
  refine ⟨fun a ha => ?_, by simp⟩
  obtain rfl : e.triple root = a := by simpa using ha
  exact (reaches_triple_edge ho hσ hl hn hm he).mono subset_rfl (by simp)

theorem anchored_conjunct (hσ : env.Sub σ) {own : String} (hown : own = root ∨ (env own).isSome)
    {n : Term} (hn : σ root = some n) {anchor : Option Triple} (ha : Anchored data env σ root anchor) :
    (∃ n', σ own = some n') ∧ Anchored data env σ own (if own = root then anchor else none) := by
  by_cases heq : own = root
  · subst heq
    simpa using ⟨⟨n, hn⟩, ha⟩
  · have hbound := hown.resolve_left heq
    rw [if_neg heq]
    exact ⟨Option.isSome_iff_exists.mp (hσ.isSome hbound), by simp, fun _ => hbound⟩

-- As for soundness, each kind of edge is added to parts that lead somewhere already.

section Parts

variable {below rest : Body} {e : Edge} {inner : Group}

theorem SectionsReach.optional (h : SectionsReach data env σ root rest s) (hopt : e.isOptional = true)
    (hhead : Reaches data env σ {root} ∅ (.optional inner .nil)) :
    SectionsReach data env σ root (edge e below rest) { s with optionals := .optional inner s.optionals } :=
  { h with
    plain := by simpa [plainTargets, firstPlainEdge?, hopt] using h.plain
    below := by simpa [plainTargets, hopt] using h.below
    optionals := hhead.append_right h.optionals
    optionals_nil := by simp [hasOptionalEdge, hopt] }

theorem SectionsReach.plainEdge (h : SectionsReach data env σ root rest s) (hopt : e.isOptional = false)
    (hedge : Reaches data env σ ∅ {root, e.target} (.triple (e.triple root) .nil))
    (hinner : Reaches data env σ {e.target} ∅ inner) :
    SectionsReach data env σ root (edge e below rest)
      { s with plain := .triple (e.triple root) s.plain, below := inner.append s.below } := by
  refine { h with plain := ?_, below := ?_, optionals_nil := ?_ }
  · rw [plainTargets_edge hopt]
    refine (hedge.append (h.plain.mono (Set.empty_subset _) subset_rfl)).mono subset_rfl ?_
    rintro v ((rfl | hv) | ⟨rfl, -⟩)
    · exact Or.inl (Or.inr rfl)
    · exact Or.inr (Or.inl hv)
    · exact Or.inl (Or.inl rfl)
  · rw [plainTargets_edge hopt]
    exact (hinner.mono Set.subset_union_left subset_rfl).append_right
      (h.below.mono Set.subset_union_right subset_rfl)
  · intro hrest
    exact h.optionals_nil (by simpa [hasOptionalEdge, hopt] using hrest)

end Parts

theorem sections_reach (ho : chart.Ordered) (hσ : env.Sub σ) {anchor : Option Triple}
    (hB : B.Each (chart.fits env) root) (hf : B.Each (followed data σ) root) {n : Term}
    (hn : σ root = some n) (ha : Anchored data env σ root anchor) :
    SectionsReach data env σ root B (B.sections root anchor) := by
  induction B generalizing root anchor n with
  | nil =>
      refine ⟨?_, ?_, reaches_nil.mono (Set.empty_subset _) (Set.empty_subset _), reaches_nil,
        by simp [sections], reaches_nil.mono subset_rfl (Set.empty_subset _), fun _ => rfl⟩
      · exact reaches_nil.mono subset_rfl (by simp [firstLeaf?])
      · exact reaches_nil.mono subset_rfl (by simp [plainTargets, firstPlainEdge?])
  | leaf predicate term rest ih =>
      have hrest := ih hB.2 hf.2 hn ha
      have hleaf : Reaches data env σ ∅ {root} (.triple ⟨root, predicate, term⟩ .nil) :=
        reaches_triple_leaf hσ hB.1.1 hB.1.2 hn (hf.1 n hn)
      exact { hrest with
        leaves := (hleaf.append_left
          (hrest.leaves.mono (Set.empty_subset _) (Set.empty_subset _))).mono subset_rfl fun v hv => hv.1 }
  | edge e below rest ihBelow ih =>
      have hrest := ih hB.2.2 hf.2.2 hn ha
      obtain ⟨m, hm, he⟩ | ⟨hopt, -, hnone⟩ := hf.1 n hn
      · have hedge : ∀ {D}, Reaches data env σ D {root, e.target} (.triple (e.triple root) .nil) :=
          reaches_triple_edge ho hσ hB.1 hn hm he
        have hanchor := anchored_edge ho hσ hB.1 hn hm he
        have hbelow := (ihBelow hB.2.1 hf.2.1 hm (hanchor.or ho hσ hB.2.1 hf.2.1 hm)).group
        simp only [sections]
        cases hopt : e.isOptional with
        | true =>
            have hinner : Reaches data env σ ∅ ∅ (.triple (e.triple root) (below.sections e.target
                ((below.ownAnchor? e.target).or (some (e.triple root)))).group) :=
              (hedge.append (hbelow.mono (by simp) (Set.empty_subset _))).mono subset_rfl
                (Set.empty_subset _)
            exact hrest.optional hopt (reaches_optional hinner)
        | false => exact hrest.plainEdge hopt hedge (hbelow.mono subset_rfl (Set.empty_subset _))
      · simp only [sections, hopt, if_true]
        exact hrest.optional hopt (reaches_optional_missing ho hσ hB.1 hn hnone (Set.mem_singleton root) _)
  | alternative isSlot body rest ihBody ih =>
      have hrest := ih hB.2 hf.2 hn ha
      have hbody := (ihBody hB.1 hf.1 hn (ha.or ho hσ hB.1 hf.1 hn)).braced ha
      simp only [sections]
      split
      · exact { hrest with }
      · exact { hrest with
          alternatives := List.forall_mem_cons.mpr ⟨hbody, hrest.alternatives⟩ }
  | conjunct own body rest ihBody ih =>
      have hrest := ih hB.2.2 hf.2.2 hn ha
      obtain ⟨⟨n', hn'⟩, hown⟩ := anchored_conjunct hσ hB.1 hn ha
      have hbody := (ihBody hB.2.1 hf.2.1 hn' (hown.or ho hσ hB.2.1 hf.2.1 hn')).braced hown
      simp only [sections]
      generalize (body.repeatedAnchor own (if own = root then anchor else none)).append _ = inner at hbody ⊢
      have hhead : Reaches data env σ ∅ ∅ (.alternatives [inner] .nil) :=
        reaches_alternatives (List.mem_singleton.mpr rfl) hbody
      split
      · exact { hrest with }
      · exact { hrest with conjuncts := hhead.append_right hrest.conjuncts }

end Body
end EntityGraph
