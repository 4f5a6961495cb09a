import EntityGraph.Proofs.Pattern.Chart

/-!
# Every solution follows the edges of the pattern

A group is sound when it makes closed solutions of closed solutions. The group of a pattern that
fits a chart is sound: a variable is bound only where the edge that leads to it, from a variable
that is bound as well, is in the data. This holds for optional edges and inside alternatives too,
which are evaluated on their own and then joined.
-/
namespace EntityGraph

open Sparql

variable {chart : Chart} {data : Dataset} {env : Assignment}

/-- Closed solutions that bind the variables in `D` are extended to closed solutions. -/
def Sparql.Group.Sound (chart : Chart) (data : Dataset) (env : Assignment) (F D : Set String)
    (G : Group) : Prop :=
  ∀ found : List Solution,
    (∀ μ ∈ found, chart.Closed data F (env.extend μ) ∧ ∀ v ∈ D, (env.extend μ v).isSome) →
      ∀ ρ ∈ G.extend data env found, chart.Closed data F (env.extend ρ)

def Sparql.Group.Fixes (data : Dataset) (env : Assignment) (E : Set String) (G : Group) : Prop :=
  ∀ (found : List Solution), ∀ ρ ∈ G.extend data env found, ∀ v ∈ E, (env.extend ρ v).isSome

theorem Sparql.Assignment.Sub.isSome {σ τ : Assignment} (h : σ.Sub τ) {v : String}
    (hv : (σ v).isSome) : (τ v).isSome := by
  obtain ⟨t, ht⟩ := Option.isSome_iff_exists.mp hv
  simp [h v t ht]

/-- Two closed parts make a closed whole, if the first one binds what the second one leaves open. -/
theorem Chart.Closed.merge {F D : Set String} {μ ν : Solution}
    (hμ : chart.Closed data F (env.extend μ)) (hD : ∀ v ∈ D, (env.extend μ v).isSome)
    (hν : chart.Closed data (F ∪ D) (env.extend ν)) (hc : μ.compatible ν = true) :
    chart.Closed data F (env.extend (μ.merge ν)) := by
  intro v t hv
  obtain hv | ⟨hnone, hv⟩ := Assignment.extend_merge_eq_some hv
  · obtain hF | ⟨r, h, n, hl, hn, he⟩ := hμ v t hv
    · exact Or.inl hF
    · exact Or.inr ⟨r, h, n, hl, Assignment.extend_sub_merge_left env μ ν r n hn, he⟩
  · obtain (hF | hvD) | ⟨r, h, n, hl, hn, he⟩ := hν v t hv
    · exact Or.inl hF
    · have := hD v hvD
      simp [hnone] at this
    · exact Or.inr ⟨r, h, n, hl, Assignment.extend_sub_merge_right env hc r n hn, he⟩

namespace Sparql.Group

variable {F D E : Set String} {G H : Group}

theorem sound_nil : Sound chart data env F D nil :=
  fun _ h ρ hρ => (h ρ hρ).1

theorem Sound.append (hG : Sound chart data env F D G) (hfix : Fixes data env E G)
    (hH : Sound chart data env F (D ∪ E) H) : Sound chart data env F D (G.append H) := by
  intro found hfound ρ hρ
  rw [extend_append] at hρ
  refine hH _ (fun μ hμ => ⟨hG found hfound μ hμ, ?_⟩) ρ hρ
  rintro v (hv | hv)
  · obtain ⟨μ₀, hμ₀, hsub⟩ := exists_sub_of_mem_extend hμ
    exact hsub.isSome ((hfound μ₀ hμ₀).2 v hv)
  · exact hfix found μ hμ v hv

theorem fixes_empty : Fixes data env ∅ G := by
  intro found ρ _ v hv
  simp at hv

theorem Sound.append' (hG : Sound chart data env F D G) (hH : Sound chart data env F D H) :
    Sound chart data env F D (G.append H) :=
  hG.append fixes_empty (by simpa using hH)

theorem Fixes.append_left (hG : Fixes data env E G) : Fixes data env E (G.append H) := by
  intro found ρ hρ v hv
  rw [extend_append] at hρ
  obtain ⟨μ, hμ, hsub⟩ := exists_sub_of_mem_extend hρ
  exact hsub.isSome (hG found μ hμ v hv)

theorem Fixes.append_right (hH : Fixes data env E H) : Fixes data env E (G.append H) := by
  intro found ρ hρ v hv
  rw [extend_append] at hρ
  exact hH _ ρ hρ v hv

theorem Sound.mono {D' : Set String} (h : Sound chart data env F D G) (hD : D ⊆ D') :
    Sound chart data env F D' G :=
  fun found hfound => h found fun μ hμ => ⟨(hfound μ hμ).1, fun v hv => (hfound μ hμ).2 v (hD hv)⟩

/-- What is evaluated on its own may leave open what is bound before it. -/
theorem Sound.solutions (h : Sound chart data env (F ∪ D) ∅ G) (henv : chart.Closed data F env)
    {ν : Solution} (hν : ν ∈ G.solutions data env) :
    chart.Closed data (F ∪ D) (env.extend ν) := by
  refine h [[]] (fun μ hμ => ?_) ν hν
  obtain rfl := List.mem_singleton.mp hμ
  rw [Assignment.extend_nil]
  exact ⟨henv.mono Set.subset_union_left, by simp⟩

theorem sound_alternatives {bodies : List Group} (henv : chart.Closed data F env)
    (h : ∀ body ∈ bodies, Sound chart data env (F ∪ D) ∅ body) :
    Sound chart data env F D (alternatives bodies nil) := by
  intro found hfound ρ hρ
  obtain ⟨μ, hμ, ν, hν, hc, rfl⟩ := mem_join.mp hρ
  obtain ⟨body, hbody, hν⟩ := mem_unionSolutions.mp hν
  exact (hfound μ hμ).1.merge (hfound μ hμ).2 ((h body hbody).solutions henv hν) hc

theorem sound_optional {body : Group} (henv : chart.Closed data F env)
    (h : Sound chart data env (F ∪ D) ∅ body) : Sound chart data env F D (optional body nil) := by
  intro found hfound ρ hρ
  obtain ⟨μ, hμ, ν, hν, hc, rfl⟩ | ⟨hρ, -⟩ := mem_leftJoin.mp hρ
  · exact (hfound μ hμ).1.merge (hfound μ hμ).2 (h.solutions henv hν) hc
  · exact (hfound ρ hρ).1

theorem closed_matching (ho : chart.Ordered) {a : Triple} {r : String} (ha : chart.Start a r)
    (hr : r ∈ F) (henv : chart.Closed data F env) {ν : Solution} (hν : ν ∈ data.matching env a) :
    chart.Closed data F (env.extend ν) := by
  have hparts : ∀ v t, env.extend ν v = some t → env v = some t ∨ ν.get? v = some t := by
    intro v t hv
    cases he : env v with
    | some b => exact Or.inl (by simpa [Assignment.extend, he] using hv)
    | none => exact Or.inr (by simpa [Assignment.extend, he] using hv)
  intro v t hv
  obtain hv' | hv' := hparts v t hv
  · obtain hF | ⟨r', h, n, hl, hn, he⟩ := henv v t hv'
    · exact Or.inl hF
    · exact Or.inr ⟨r', h, n, hl, Assignment.sub_extend env ν r' n hn, he⟩
  · cases ha with
    | leaf hvr hvt =>
        obtain ⟨a, b, -, -, -, hdom⟩ := Dataset.mem_matching hν
        obtain ⟨hvar, rfl | rfl⟩ := hdom v t hv'
        · exact Or.inl hr
        · simp [hvt] at hvar
    | @edge _ e hl =>
        obtain ⟨hvt, hvr⟩ := ho.isVariable_link hl
        obtain ⟨n, m, hn, hm, he, hdom⟩ := Dataset.mem_matching_edge hvr hvt hν
        obtain rfl | rfl := hdom v t hv'
        · exact Or.inl hr
        · obtain rfl : m = t := Option.some.inj (hm.symm.trans hv)
          exact Or.inr ⟨r, e.hop, n, hl, hn, he⟩

theorem sound_triple (ho : chart.Ordered) (henv : chart.Closed data F env) {a : Triple} {r : String}
    (ha : chart.Start a r) (hr : r ∈ F ∪ D) : Sound chart data env F D (triple a nil) := by
  intro found hfound ρ hρ
  obtain ⟨μ, hμ, ν, hν, hc, rfl⟩ := mem_join.mp hρ
  have hclosed := closed_matching ho ha hr (henv.mono Set.subset_union_left) hν
  exact (hfound μ hμ).1.merge (hfound μ hμ).2 hclosed hc

theorem fixes_triple_edge (ho : chart.Ordered) {root : String} {e : Edge}
    (hl : chart.link e.target = some (root, e.hop)) :
    Fixes data env {root, e.target} (triple (e.triple root) nil) := by
  obtain ⟨hvt, hvr⟩ := ho.isVariable_link hl
  intro found ρ hρ v hv
  obtain ⟨μ, hμ, ν, hν, hc, rfl⟩ := mem_join.mp hρ
  obtain ⟨n, m, hn, hm, -, -⟩ := Dataset.mem_matching_edge hvr hvt hν
  have hsub := Assignment.extend_sub_merge_right env hc
  rcases hv with rfl | rfl
  · exact hsub.isSome (by simp [hn])
  · exact hsub.isSome (by simp [hm])

end Sparql.Group

namespace Body

open Sparql.Group

/-- What is proved of the parts of a group together. -/
structure SectionsSound (chart : Chart) (data : Dataset) (env : Assignment) (F D : Set String)
    (B : Body) (s : Sections) : Prop where
  leaves : Sound chart data env F D s.leaves
  plain : Sound chart data env F D s.plain
  fixes : Fixes data env {v | v ∈ B.plainTargets} s.plain
  below : Sound chart data env F (D ∪ {v | v ∈ B.plainTargets}) s.below
  conjuncts : Sound chart data env F D s.conjuncts
  alternatives : ∀ body ∈ s.alternatives, Sound chart data env (F ∪ D) ∅ body
  optionals : Sound chart data env F D s.optionals

variable {F D : Set String}

theorem plainTargets_edge {e : Edge} (hopt : e.isOptional = false) (below rest : Body) :
    {v | v ∈ (edge e below rest).plainTargets} = {e.target} ∪ {v | v ∈ rest.plainTargets} := by
  ext v
  simp [plainTargets, hopt]

theorem SectionsSound.group {B : Body} {s : Sections} (henv : chart.Closed data F env)
    (h : SectionsSound chart data env F D B s) : Sound chart data env F D s.group := by
  have hunion : Sound chart data env F D
      (if s.alternatives.isEmpty then .nil else .alternatives s.alternatives .nil) := by
    split
    · exact sound_nil
    · exact sound_alternatives henv h.alternatives
  have hrest := h.conjuncts.append' (hunion.append' h.optionals)
  exact h.leaves.append' (h.plain.append h.fixes
    (h.below.append' (hrest.mono Set.subset_union_left)))

theorem sound_repeatedAnchor (ho : chart.Ordered) (henv : chart.Closed data F env) (B : Body)
    {root : String} {inherited : Option Triple}
    (hin : ∀ a, inherited = some a → ∃ r ∈ F, chart.Start a r) :
    Sound chart data env F ∅ (B.repeatedAnchor root inherited) := by
  unfold repeatedAnchor
  split
  · next anchor hown =>
      split
      · obtain ⟨r, hr, hstart⟩ := hin anchor rfl
        exact sound_triple ho henv hstart (Or.inl hr)
      · exact sound_nil
  · exact sound_nil

theorem anchor_start {B : Body} {root : String} {inherited : Option Triple} {U : Set String}
    (hB : B.Each (chart.fits env) root) (hroot : root ∈ U)
    (hin : ∀ a, inherited = some a → ∃ r ∈ U, chart.Start a r) :
    ∀ a, (B.ownAnchor? root).or inherited = some a → ∃ r ∈ U, chart.Start a r := by
  intro a ha
  cases hown : B.ownAnchor? root with
  | some own =>
      obtain rfl : own = a := by simpa [hown] using ha
      exact ⟨root, hroot, start_of_ownAnchor? hB hown⟩
  | none => exact hin a (by simpa [hown] using ha)

-- One lemma for each kind of part says how it is added to parts that are sound already.

section Parts

variable {below body rest : Body} {e : Edge} {root own : String} {anchor : Option Triple}
  {s : Sections} {inner : Group} (ho : chart.Ordered) (henv : chart.Closed data F env)

include ho

theorem SectionsSound.braced (h : SectionsSound chart data env F ∅ body
      (body.sections root ((body.ownAnchor? root).or anchor))) (henv : chart.Closed data F env)
    (hanchor : ∀ a, anchor = some a → ∃ r ∈ F, chart.Start a r) :
    Sound chart data env F ∅ ((body.repeatedAnchor root anchor).append
      (body.sections root ((body.ownAnchor? root).or anchor)).group) :=
  (sound_repeatedAnchor ho henv body hanchor).append' (h.group henv)

include henv

theorem SectionsSound.optional (h : SectionsSound chart data env F D rest s) (hopt : e.isOptional = true)
    (hl : chart.link e.target = some (root, e.hop)) (hroot : root ∈ F ∪ D)
    (hinner : Sound chart data env (F ∪ D) (∅ ∪ {root, e.target}) inner) :
    SectionsSound chart data env F D (edge e below rest)
      { s with optionals := .optional (.triple (e.triple root) inner) s.optionals } := by
  have htriple : Sound chart data env (F ∪ D) ∅ (.triple (e.triple root) .nil) :=
    sound_triple ho (henv.mono Set.subset_union_left) (.edge hl) (Or.inl hroot)
  have hhead : Sound chart data env F D (.optional (.triple (e.triple root) inner) .nil) :=
    sound_optional henv (htriple.append (fixes_triple_edge ho hl) hinner)
  exact { h with
    fixes := by simpa [plainTargets, hopt] using h.fixes
    below := by simpa [plainTargets, hopt] using h.below
    optionals := hhead.append' h.optionals }

theorem SectionsSound.plainEdge (h : SectionsSound chart data env F D rest s) (hopt : e.isOptional = false)
    (hl : chart.link e.target = some (root, e.hop)) (hroot : root ∈ F ∪ D)
    (hinner : Sound chart data env F (D ∪ ({e.target} ∪ {v | v ∈ rest.plainTargets})) inner) :
    SectionsSound chart data env F D (edge e below rest)
      { s with plain := .triple (e.triple root) s.plain, below := inner.append s.below } := by
  have hhead : Sound chart data env F D (.triple (e.triple root) .nil) :=
    sound_triple ho henv (.edge hl) hroot
  have hfix : Fixes data env {root, e.target} (.triple (e.triple root) .nil) := fixes_triple_edge ho hl
  refine { h with plain := hhead.append' h.plain, fixes := ?_, below := ?_ }
  · rw [plainTargets_edge hopt]
    rintro found ρ hρ v (rfl | hv)
    · exact (hfix.append_left (H := s.plain)) found ρ hρ _ (Or.inr rfl)
    · exact (h.fixes.append_right (G := .triple (e.triple root) .nil)) found ρ hρ v hv
  · rw [plainTargets_edge hopt]
    exact hinner.append' (h.below.mono (Set.union_subset_union_right D Set.subset_union_right))

omit ho

theorem SectionsSound.conjunct {D' : Set String} (h : SectionsSound chart data env F D rest s)
    (hinner : Sound chart data env (F ∪ D') ∅ inner)
    (hbound : ∀ μ : Solution, (∀ v ∈ D, (env.extend μ v).isSome) → ∀ v ∈ D', (env.extend μ v).isSome) :
    SectionsSound chart data env F D (conjunct own body rest)
      { s with conjuncts := .alternatives [inner] s.conjuncts } := by
  have hhead : Sound chart data env F D (.alternatives [inner] .nil) := fun found hfound =>
    sound_alternatives (D := D') henv (fun b hb => by rwa [List.mem_singleton.mp hb]) found
      fun μ hμ => ⟨(hfound μ hμ).1, hbound μ (hfound μ hμ).2⟩
  exact { h with conjuncts := hhead.append' h.conjuncts }

end Parts

theorem sections_sound (ho : chart.Ordered) {B : Body} {root : String} {anchor : Option Triple}
    (hB : B.Each (chart.fits env) root) (henv : chart.Closed data F env) (hroot : root ∈ F ∪ D)
    (hanchor : ∀ a, anchor = some a → ∃ r ∈ F ∪ D, chart.Start a r) :
    SectionsSound chart data env F D B (B.sections root anchor) := by
  induction B generalizing root anchor F D with
  | nil => exact ⟨sound_nil, sound_nil, by simp [Fixes, plainTargets], sound_nil, sound_nil,
      by simp [sections], sound_nil⟩
  | leaf predicate term rest ih =>
      have hrest := ih hB.2 henv hroot hanchor
      have hleaf : chart.Start ⟨root, predicate, term⟩ root := .leaf hB.1.1 hB.1.2
      exact { hrest with leaves := (sound_triple ho henv hleaf hroot).append' hrest.leaves }
  | edge e below rest ihBelow ih =>
      have hrest := ih hB.2.2 henv hroot hanchor
      -- inside the edge its target is bound, and the edge itself may serve as anchor
      have hin : ∀ {F' D' : Set String}, chart.Closed data F' env → root ∈ F' ∪ D' →
          e.target ∈ D' → Sound chart data env F' D' (below.sections e.target
            ((below.ownAnchor? e.target).or (some (e.triple root)))).group := by
        intro F' D' henv' hr ht
        refine (ihBelow hB.2.1 henv' (Or.inr ht) ?_).group henv'
        refine anchor_start hB.2.1 (Or.inr ht) fun a ha => ⟨root, hr, ?_⟩
        obtain rfl : e.triple root = a := by simpa using ha
        exact .edge hB.1
      unfold sections
      cases hopt : e.isOptional with
      | true =>
          have henv' := henv.mono (Set.subset_union_left (t := D))
          exact hrest.optional ho henv hopt hB.1 hroot (hin henv' (Or.inl hroot) (Or.inr (Or.inr rfl)))
      | false =>
          exact hrest.plainEdge ho henv hopt hB.1 hroot
            (hin henv (hroot.imp id Or.inl) (Or.inr (Or.inl rfl)))
  | alternative isSlot body rest ihBody ih =>
      have hrest := ih hB.2 henv hroot hanchor
      have henv' := henv.mono (Set.subset_union_left (t := D))
      have hbody := ihBody (D := ∅) hB.1 henv' (Or.inl hroot)
        (anchor_start hB.1 (Or.inl hroot) fun a ha => by simpa using hanchor a ha)
      simp only [sections]
      split
      · exact { hrest with }
      · exact { hrest with
          alternatives := List.forall_mem_cons.mpr ⟨hbody.braced ho henv' hanchor, hrest.alternatives⟩ }
  | conjunct own body rest ihBody ih =>
      have hrest := ih hB.2.2 henv hroot hanchor
      -- a variable bound outside counts as bound before the conjunct
      have hown : ∃ D', D ⊆ D' ∧ own ∈ F ∪ D' ∧
          ∀ μ : Solution, (∀ v ∈ D, (env.extend μ v).isSome) → ∀ v ∈ D', (env.extend μ v).isSome := by
        obtain rfl | hbound := hB.1
        · exact ⟨D, fun _ => id, hroot, fun _ => id⟩
        · refine ⟨D ∪ {own}, Set.subset_union_left, Or.inr (Or.inr rfl), ?_⟩
          rintro μ hμ v (hv | rfl)
          · exact hμ v hv
          · exact (Assignment.sub_extend env μ).isSome hbound
      obtain ⟨D', hDD', hown, hD'⟩ := hown
      have henv' := henv.mono (Set.subset_union_left (t := D'))
      have hin : ∀ a, (if own = root then anchor else none) = some a → ∃ r ∈ F ∪ D', chart.Start a r := by
        intro a ha
        split at ha
        · obtain ⟨r, hr, hstart⟩ := hanchor a ha
          exact ⟨r, hr.imp id fun h => hDD' h, hstart⟩
        · simp at ha
      have hbody := ihBody (D := ∅) hB.2.1 henv' (Or.inl hown)
        (anchor_start hB.2.1 (Or.inl hown) fun a ha => by simpa using hin a ha)
      simp only [sections]
      generalize (if own = root then anchor else none) = inherited at hin hbody ⊢
      split
      · exact { hrest with }
      · exact hrest.conjunct henv (hbody.braced ho henv' hin) hD'

end Body

namespace Pattern

variable {p : Pattern} {F : Set String} {μ : Solution}

theorem sections_sound (ho : chart.Ordered) (hp : p.body.Each (chart.fits env) p.root)
    (henv : chart.Closed data F env) (hroot : p.root ∈ F) :
    Body.SectionsSound chart data env F ∅ p.body
      (p.body.sections p.root (p.body.ownAnchor? p.root)) :=
  Body.sections_sound ho hp henv (Or.inl hroot)
    fun _ ha => ⟨p.root, Or.inl hroot, Body.start_of_ownAnchor? hp ha⟩

theorem closed_of_mem_solutions (ho : chart.Ordered) (hp : p.body.Each (chart.fits env) p.root)
    (henv : chart.Closed data F env) (hroot : p.root ∈ F) (hμ : μ ∈ p.group.solutions data env) :
    chart.Closed data F (env.extend μ) := by
  refine ((sections_sound ho hp henv hroot).group henv) [[]] ?_ μ hμ
  intro ν hν
  obtain rfl := List.mem_singleton.mp hν
  rw [Assignment.extend_nil]
  exact ⟨henv, by simp⟩

theorem bound_of_mem_solutions (ho : chart.Ordered) (hp : p.body.Each (chart.fits env) p.root)
    (henv : chart.Closed data F env) (hroot : p.root ∈ F) (hμ : μ ∈ p.group.solutions data env)
    {v : String} (hv : v ∈ p.body.plainTargets) : (env.extend μ v).isSome := by
  have hfixes := (sections_sound ho hp henv hroot).fixes
  exact (hfixes.append_left.append_right (G := _)) [[]] μ hμ v hv

theorem leaf_of_mem_solutions {root predicate term : String} {rest : Body}
    (hr : isVariable root = true) (ht : isVariable term = false)
    (hμ : μ ∈ (Pattern.mk root (.leaf predicate term rest)).group.solutions data env) :
    ∃ n, env.extend μ root = some n ∧
      ⟨n, data.resolve predicate, data.resolve term⟩ ∈ data.statements := by
  change μ ∈ (Group.append _ _).extend data env (join [[]] (data.matching env ⟨root, predicate, term⟩)) at hμ
  obtain ⟨ν, hν, hsub⟩ := Group.exists_sub_of_mem_extend hμ
  obtain ⟨ι, -, κ, hκ, hc, rfl⟩ := mem_join.mp hν
  obtain ⟨a, b, hs, ha, hb, -⟩ := Dataset.mem_matching hκ
  rw [Dataset.denotes?_of_isVariable hr] at ha
  rw [Dataset.denotes?_of_not_isVariable ht] at hb
  obtain rfl := Option.some.inj hb
  exact ⟨a, hsub _ _ (Assignment.extend_sub_merge_right env hc _ _ ha), hs⟩

end Pattern
end EntityGraph
