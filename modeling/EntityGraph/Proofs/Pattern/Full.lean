import EntityGraph.Proofs.Pattern.Narrow
import EntityGraph.Proofs.Pattern.Reading
import EntityGraph.Proofs.Pattern.Ways

/-!
# Solutions that leave nothing out

A solution of a narrow pattern takes every edge that it can. Let the solution lie within a reading of the
data, and let the reading follow an optional edge. Then the optional group has a solution within the reading
too; the two are compatible, so that the left join does not leave the edge out.
-/
namespace EntityGraph

open Sparql

variable {chart : Chart} {data : Dataset} {env σ : Assignment} {F : Set String}

def Sparql.Group.Fills (data : Dataset) (env σ : Assignment) (v : String) (G : Group) : Prop :=
  ∀ found : List Solution, ∀ ρ ∈ G.extend data env found, ρ.Within σ → (σ v).isSome →
    (env.extend ρ v).isSome

namespace Sparql.Group

variable {v : String} {G H : Group}

theorem fills_of_none (hv : σ v = none) : Fills data env σ v G := by
  intro found ρ _ _ hσ
  simp [hv] at hσ

theorem Fills.append_left (h : Fills data env σ v G) : Fills data env σ v (G.append H) := by
  intro found ρ hρ hw hv
  rw [extend_append] at hρ
  obtain ⟨μ, hμ, hμρ⟩ := exists_within_of_mem_extend hρ
  have hμσ : μ.Within σ := fun u t hu => hw u t (hμρ u t hu)
  exact (Assignment.extend_sub_extend env hμρ).isSome (h found μ hμ hμσ hv)

theorem Fills.append_right (h : Fills data env σ v H) : Fills data env σ v (G.append H) := by
  intro found ρ hρ hw hv
  rw [extend_append] at hρ
  exact h _ ρ hρ hw hv

theorem Fills.of_isNil (h : Fills data env σ v G) (hnil : G.isNil = true) :
    Fills data env σ v H := by
  obtain rfl : G = nil := by
    cases G with
    | nil => rfl
    | triple t rest => simp [isNil] at hnil
    | alternatives bodies rest => simp [isNil] at hnil
    | optional body rest => simp [isNil] at hnil
  intro found ρ _ _ hv
  have hbound := h [[]] [] (List.mem_singleton.mpr rfl) (Solution.within_nil σ) hv
  rw [Assignment.extend_nil] at hbound
  exact (Assignment.sub_extend env ρ).isSome hbound

theorem fills_triple_edge (ho : chart.Ordered) {root : String} {e : Edge}
    (hl : chart.link e.target = some (root, e.hop)) :
    Fills data env σ e.target (triple (e.triple root) nil) :=
  fun found ρ hρ _ _ => fixes_triple_edge ho hl found ρ hρ _ (Or.inr rfl)

theorem fills_braces (h : Fills data env σ v G) : Fills data env σ v (alternatives [G] nil) := by
  intro found ρ hρ hw hv
  obtain ⟨μ, -, ν, hν, hc, rfl⟩ := mem_join.mp hρ
  obtain ⟨body, hbody, hsol⟩ := mem_unionSolutions.mp hν
  obtain rfl := List.mem_singleton.mp hbody
  exact (Assignment.extend_sub_merge_right env hc).isSome (h [[]] ν hsol (hw.of_merge_right hc) hv)

theorem fills_optional (hreach : Reaches data env σ ∅ ∅ G) (h : Fills data env σ v G) :
    Fills data env σ v (optional G nil) := by
  intro found ρ hρ hw hv
  obtain ⟨μ, -, ν, hν, hc, rfl⟩ | ⟨-, hnone⟩ := mem_leftJoin.mp hρ
  · exact (Assignment.extend_sub_merge_right env hc).isSome (h [[]] ν hν (hw.of_merge_right hc) hv)
  · obtain ⟨ν, hν, hνσ, -⟩ := hreach.exists_solution
    have hc := hw.compatible hνσ
    simp [hnone ν hν] at hc

end Sparql.Group

namespace Body

open Sparql.Group

/-- Conjuncts hang at the root of the pattern they belong to, but for the outermost one. -/
def inPlace (top : String) : Condition where
  leaf _ _ _ := True
  edge _ _ := True
  conjunct root own := own = root ∨ root = top

theorem targets_unbound (hσ : chart.Closed data F σ) (hF : ∀ v ∈ F, chart.link v = none) {top : String}
    (htop : chart.link top = none) {B : Body} {root : String} (hB : B.Each (chart.fits env) root)
    (hl : B.Each (inPlace top) root) (hroot : root ≠ top) (hn : σ root = none) :
    ∀ v ∈ B.targets, σ v = none := by
  induction B generalizing root with
  | nil => simp [targets]
  | leaf predicate term rest ih => exact ih hB.2 hl.2 hroot hn
  | edge e below rest ihBelow ih =>
      have hlink : chart.link e.target = some (root, e.hop) := hB.1
      have htarget : σ e.target = none := by
        by_contra hsome
        obtain ⟨t, ht⟩ := Option.ne_none_iff_exists'.mp hsome
        obtain hmem | ⟨r, h, n, hlink', hn', -⟩ := hσ e.target t ht
        · simp [hF _ hmem] at hlink
        · obtain ⟨rfl, -⟩ : root = r ∧ e.hop = h := by simpa using Option.some.inj (hlink.symm.trans hlink')
          simp [hn] at hn'
      have hne : e.target ≠ top := by
        rintro heq
        simp [heq, htop] at hlink
      intro v hv
      obtain rfl | hv := List.mem_cons.mp hv
      · exact htarget
      · obtain hv | hv := List.mem_append.mp hv
        · exact ihBelow hB.2.1 hl.2.1 hne htarget v hv
        · exact ih hB.2.2 hl.2.2 hroot hn v hv
  | alternative isSlot body rest ihBody ih =>
      intro v hv
      obtain hv | hv := List.mem_append.mp hv
      · exact ihBody hB.1 hl.1 hroot hn v hv
      · exact ih hB.2 hl.2 hroot hn v hv
  | conjunct own body rest ihBody ih =>
      obtain rfl : own = root := hl.1.resolve_right hroot
      intro v hv
      obtain hv | hv := List.mem_append.mp hv
      · exact ihBody hB.2.1 hl.2.1 hroot hn v hv
      · exact ih hB.2.2 hl.2.2 hroot hn v hv

def Sections.Fills (data : Dataset) (env σ : Assignment) (v : String) (s : Sections) : Prop :=
  Group.Fills data env σ v s.plain ∨ Group.Fills data env σ v s.below ∨
    Group.Fills data env σ v s.conjuncts ∨
      (∃ body, s.alternatives = [body] ∧ Group.Fills data env σ v body) ∨
        Group.Fills data env σ v s.optionals

theorem Sections.Fills.group {s : Sections} {v : String} (h : s.Fills data env σ v) :
    Group.Fills data env σ v s.group := by
  unfold Sections.group
  obtain h | h | h | ⟨body, hs, h⟩ | h := h
  · exact h.append_left.append_right
  · exact h.append_left.append_right.append_right
  · exact h.append_left.append_right.append_right.append_right
  · have hunion : Group.Fills data env σ v
        (if s.alternatives.isEmpty then .nil else .alternatives s.alternatives .nil) := by
      rw [hs, if_neg (by simp)]
      exact fills_braces h
    exact hunion.append_left.append_right.append_right.append_right.append_right
  · exact h.append_right.append_right.append_right.append_right.append_right

theorem Sections.Fills.imp {s s' : Sections} {v : String} (h : s.Fills data env σ v)
    (hplain : Group.Fills data env σ v s.plain → Group.Fills data env σ v s'.plain)
    (hbelow : Group.Fills data env σ v s.below → Group.Fills data env σ v s'.below)
    (hconjuncts : Group.Fills data env σ v s.conjuncts → Group.Fills data env σ v s'.conjuncts)
    (halternatives : ∀ body, s.alternatives = [body] → s'.alternatives = [body])
    (hoptionals : Group.Fills data env σ v s.optionals → Group.Fills data env σ v s'.optionals) :
    s'.Fills data env σ v := by
  obtain h | h | h | ⟨body, hs, h⟩ | h := h
  · exact Or.inl (hplain h)
  · exact Or.inr (Or.inl (hbelow h))
  · exact Or.inr (Or.inr (Or.inl (hconjuncts h)))
  · exact Or.inr (Or.inr (Or.inr (Or.inl ⟨body, halternatives body hs, h⟩)))
  · exact Or.inr (Or.inr (Or.inr (Or.inr (hoptionals h))))

-- What a part fills, or what the parts before it fill, is filled once the part is added.

section Parts

variable {s : Sections} {inner : Group} {v : String}

theorem Sections.fills_plainEdge {t : Triple}
    (h : Group.Fills data env σ v (.triple t .nil) ∨ Group.Fills data env σ v inner ∨
      s.Fills data env σ v) :
    Sections.Fills data env σ v { s with plain := .triple t s.plain, below := inner.append s.below } := by
  obtain h | h | h := h
  · exact Or.inl h.append_left
  · exact Or.inr (Or.inl h.append_left)
  · exact h.imp (fun h => h.append_right (G := .triple t .nil)) (fun h => h.append_right) id
      (fun _ => id) id

theorem Sections.fills_optional
    (h : Group.Fills data env σ v (.optional inner .nil) ∨ s.Fills data env σ v) :
    Sections.Fills data env σ v { s with optionals := .optional inner s.optionals } := by
  obtain h | h := h
  · exact Or.inr (Or.inr (Or.inr (Or.inr h.append_left)))
  · exact h.imp id id id (fun _ => id) fun h => h.append_right (G := .optional inner .nil)

theorem Sections.fills_alternative (hnil : s.alternatives = [])
    (h : Group.Fills data env σ v inner ∨ s.Fills data env σ v) :
    Sections.Fills data env σ v
      (if inner.isNil then s else { s with alternatives := inner :: s.alternatives }) := by
  obtain h | h := h
  · split
    · next hempty => exact Or.inl (h.of_isNil hempty)
    · exact Or.inr (Or.inr (Or.inr (Or.inl ⟨inner, by rw [hnil], h⟩)))
  · split
    · exact h
    · exact h.imp id id id (fun other hother => by simp [hnil] at hother) id

theorem Sections.fills_conjunct (h : Group.Fills data env σ v inner ∨ s.Fills data env σ v) :
    Sections.Fills data env σ v
      (if inner.isNil then s else { s with conjuncts := .alternatives [inner] s.conjuncts }) := by
  obtain h | h := h
  · split
    · next hempty => exact Or.inl (h.of_isNil hempty)
    · exact Or.inr (Or.inr (Or.inl (fills_braces h).append_left))
  · split
    · exact h
    · exact h.imp id id (fun h => h.append_right (G := .alternatives [inner] .nil)) (fun _ => id) id

end Parts

theorem sections_alternatives_eq_nil {B : Body} {root : String} {anchor : Option Triple}
    (h : B.alternatives = []) : (B.sections root anchor).alternatives = [] := by
  induction B with
  | nil => rfl
  | leaf predicate term rest ih => exact ih h
  | edge e below rest _ ih =>
      simp only [sections]
      split <;> exact ih h
  | alternative isSlot body rest _ ih => simp [alternatives] at h
  | conjunct own body rest _ ih =>
      simp only [sections]
      generalize (body.repeatedAnchor own (if own = root then anchor else none)).append _ = inner
      split <;> exact ih h

variable {B : Body} {root top : String}

theorem sections_fill (ho : chart.Ordered) (hσ : env.Sub σ) (hclosed : chart.Closed data F σ)
    (hF : ∀ v ∈ F, chart.link v = none) (htop : chart.link top = none) {anchor : Option Triple}
    (hB : B.Each (chart.fits env) root) (hf : B.Each (followed data σ) root)
    (hl : B.Each (inPlace top) root) (hnarrow : B.Narrow) {n : Term} (hn : σ root = some n)
    (ha : Anchored data env σ root anchor) {v : String} (hv : v ∈ B.targets) :
    (B.sections root anchor).Fills data env σ v := by
  induction B generalizing root anchor n with
  | nil => simp [targets] at hv
  | leaf predicate term rest ih => exact ih hB.2 hf.2 hl.2 hnarrow hn ha hv
  | edge e below rest ihBelow ih =>
      have hlink : chart.link e.target = some (root, e.hop) := hB.1
      have hrest : v ∈ rest.targets → (rest.sections root anchor).Fills data env σ v :=
        ih hB.2.2 hf.2.2 hl.2.2 hnarrow.2 hn ha
      have htriple : v = e.target → Group.Fills data env σ v (.triple (e.triple root) .nil) := by
        rintro rfl
        exact fills_triple_edge ho hlink
      have hv : v = e.target ∨ v ∈ below.targets ∨ v ∈ rest.targets := by
        simpa [targets] using hv
      obtain ⟨m, hm, he⟩ | ⟨hopt, hnone, -⟩ := hf.1 n hn
      · have hanchor := (anchored_edge ho hσ hlink hn hm he).or ho hσ hB.2.1 hf.2.1 hm
        have hinner : v ∈ below.targets → Group.Fills data env σ v (hanging root e below) :=
          fun hv => (ihBelow hB.2.1 hf.2.1 hl.2.1 hnarrow.1 hm hanchor hv).group
        cases hopt : e.isOptional with
        | false =>
            simp only [sections, hopt, Bool.false_eq_true, if_false]
            exact Sections.fills_plainEdge (hv.imp htriple (Or.imp hinner hrest))
        | true =>
            have hreach : Reaches data env σ ∅ ∅
                ((Group.triple (e.triple root) .nil).append (hanging root e below)) := by
              have hgroup := (sections_reach ho hσ hB.2.1 hf.2.1 hm hanchor).group
              refine ((reaches_triple_edge ho hσ hlink hn hm he).append (Y := ∅) ?_).mono subset_rfl
                (Set.empty_subset _)
              exact hgroup.mono (by simp) (Set.empty_subset _)
            simp only [sections, hopt, if_true]
            refine Sections.fills_optional ?_
            obtain hv | hv | hv := hv
            · exact Or.inl (fills_optional hreach (htriple hv).append_left)
            · have h := (hinner hv).append_right (G := .triple (e.triple root) .nil)
              exact Or.inl (fills_optional hreach h)
            · exact Or.inr (hrest hv)
      · -- the reading does not follow the edge, and nothing below it is bound
        have hbelow : v ∈ below.targets → σ v = none := by
          have hne : e.target ≠ top := by
            rintro heq
            simp [heq, htop] at hlink
          exact targets_unbound hclosed hF htop hB.2.1 hl.2.1 hne hnone v
        simp only [sections, hopt, if_true]
        refine Sections.fills_optional ?_
        obtain rfl | hv | hv := hv
        · exact Or.inl (fills_of_none hnone)
        · exact Or.inl (fills_of_none (hbelow hv))
        · exact Or.inr (hrest hv)
  | alternative isSlot body rest ihBody ih =>
      obtain ⟨-, hbody, hnil, hnarrow⟩ := hnarrow
      have hinner : v ∈ body.targets → Group.Fills data env σ v (braced root anchor body) := fun hv =>
        (ihBody hB.1 hf.1 hl.1 hbody hn (ha.or ho hσ hB.1 hf.1 hn) hv).group.append_right
      have hrest : v ∈ rest.targets → (rest.sections root anchor).Fills data env σ v :=
        ih hB.2 hf.2 hl.2 hnarrow hn ha
      exact Sections.fills_alternative (sections_alternatives_eq_nil hnil)
        ((List.mem_append.mp hv).imp hinner hrest)
  | conjunct own body rest ihBody ih =>
      obtain ⟨⟨n', hn'⟩, hown⟩ := anchored_conjunct hσ hB.1 hn ha
      have hinner : v ∈ body.targets →
          Group.Fills data env σ v (braced own (if own = root then anchor else none) body) := fun hv =>
        (ihBody hB.2.1 hf.2.1 hl.2.1 hnarrow.1 hn' (hown.or ho hσ hB.2.1 hf.2.1 hn') hv).group.append_right
      have hrest : v ∈ rest.targets → (rest.sections root anchor).Fills data env σ v :=
        ih hB.2.2 hf.2.2 hl.2.2 hnarrow.2 hn ha
      exact Sections.fills_conjunct ((List.mem_append.mp hv).imp hinner hrest)

theorem Each.of_mem_conjuncts {c : Condition} {own : String} {C : Body} (hB : B.Each c root)
    (h : (own, C) ∈ B.conjuncts) : c.conjunct root own ∧ C.Each c own := by
  induction B with
  | nil => simp [conjuncts] at h
  | leaf predicate term rest ih => exact ih hB.2 h
  | edge e below rest _ ih => exact ih hB.2.2 h
  | alternative isSlot body rest _ ih => exact ih hB.2 h
  | conjunct other body rest _ ih =>
      obtain ⟨rfl, rfl⟩ | h := by simpa only [conjuncts, List.mem_cons, Prod.mk.injEq] using h
      · exact ⟨hB.1, hB.2.1⟩
      · exact ih hB.2.2 h

theorem sections_fill_conjunct {anchor : Option Triple} {own : String} {C : Body}
    (hC : (own, C) ∈ B.conjuncts) {v : String}
    (h : Group.Fills data env σ v (braced own (if own = root then anchor else none) C)) :
    (B.sections root anchor).Fills data env σ v := by
  have hconjuncts : Group.Fills data env σ v (B.sections root anchor).conjuncts := by
    induction B with
    | nil => simp [conjuncts] at hC
    | leaf predicate term rest ih => exact ih hC
    | edge e below rest _ ih =>
        simp only [sections]
        split <;> exact ih hC
    | alternative isSlot body rest _ ih =>
        simp only [sections]
        split <;> exact ih hC
    | conjunct other body rest _ ih =>
        have hhead : (own, C) = (other, body) → Group.Fills data env σ v
            (braced other (if other = root then anchor else none) body) := by
          rintro heq
          obtain ⟨rfl, rfl⟩ := Prod.mk.inj heq
          exact h
        simp only [sections]
        change (own, C) = (other, body) → Group.Fills data env σ v
          ((body.repeatedAnchor other (if other = root then anchor else none)).append _) at hhead
        generalize (body.repeatedAnchor other (if other = root then anchor else none)).append _ = inner
          at hhead ⊢
        obtain heq | hC := List.mem_cons.mp hC
        · split
          · next hempty => exact (hhead heq).of_isNil hempty
          · exact (fills_braces (hhead heq)).append_left
        · split
          · exact ih hC
          · exact (ih hC).append_right (G := .alternatives [inner] .nil)
  exact Or.inr (Or.inr (Or.inl hconjuncts))

end Body

/-- From where the variable is reached, its edge is taken if the data have it. -/
def Chart.SaturatedAt (chart : Chart) (data : Dataset) (σ : Assignment) (v : String) : Prop :=
  ∀ r h n m, chart.link v = some (r, h) → σ r = some n → data.Leads h n m → (σ v).isSome

namespace Pattern

variable {p : Pattern} {ρ : Solution} {good : String → Term → Prop}

/-- What is known of a solution of a pattern, and of the readings it lies in. -/
structure Holds (chart : Chart) (data : Dataset) (env : Assignment) (F : Set String)
    (good : String → Term → Prop) (p : Pattern) (ρ : Solution) : Prop where
  ordered : chart.Ordered
  unlinked : ∀ v ∈ F, chart.link v = none
  fits : p.body.Each (chart.fits env) p.root
  supplied : p.body.Each (Body.supplied data good) p.root
  anchored : (p.body.ownAnchor? p.root).isSome ∨ (env p.root).isSome
  mem : ρ ∈ p.group.solutions data env
  closed : chart.Closed data F (env.extend ρ)
  bound : (env.extend ρ p.root).isSome
  good : ∀ σ, chart.Closed data F σ → (env.extend ρ).Sub σ → ∀ v t, σ v = some t → good v t

variable {v : String}

theorem Holds.saturatedAt (h : Holds chart data env F good p ρ)
    (hfill : ∀ σ n, env.Sub σ → chart.Closed data F σ → p.body.Each (Body.followed data σ) p.root →
      σ p.root = some n → Body.Anchored data env σ p.root (p.body.ownAnchor? p.root) →
        Group.Fills data env σ v p.group) :
    chart.SaturatedAt data (env.extend ρ) v := by
  obtain ⟨n, hn⟩ := Option.isSome_iff_exists.mp h.bound
  have hreading : chart.Reading data F (chart.complete data (env.extend ρ)) :=
    Chart.reading_complete h.ordered h.closed
  have hsub : (env.extend ρ).Sub (chart.complete data (env.extend ρ)) := Chart.sub_complete
  have henv := (Assignment.sub_extend env ρ).trans hsub
  have havoid : p.body.Each (Body.avoiding F) p.root := by
    refine h.fits.mono (fun _ _ _ _ => trivial) (fun r e he hF => ?_) fun _ _ _ => trivial
    have hlink : chart.link e.target = some (r, e.hop) := he
    simp [h.unlinked _ hF] at hlink
  have hf := Body.followed_of_reading hreading (h.good _ hreading.closed hsub) h.fits h.supplied havoid
  have hfills := hfill _ n henv hreading.closed hf (hsub _ n hn)
    (Pattern.anchored h.ordered henv h.fits hf (hsub _ n hn) h.anchored)
  intro r hop n' m hl hn' hlead
  exact hfills [[]] ρ h.mem (Group.within_of_mem_solutions h.mem hsub)
    (hreading.saturated hl (hsub _ n' hn') hlead)

theorem Holds.saturatedAt_target (h : Holds chart data env F good p ρ) {top : String}
    (htop : chart.link top = none) (hl : p.body.Each (Body.inPlace top) p.root)
    (hnarrow : p.body.Narrow) (hv : v ∈ p.body.targets) :
    chart.SaturatedAt data (env.extend ρ) v :=
  h.saturatedAt fun _ _ hσ hclosed hf hn ha =>
    (Body.sections_fill h.ordered hσ hclosed h.unlinked htop h.fits hf hl hnarrow hn ha hv).group

theorem Holds.saturatedAt_conjunct (h : Holds chart data env F good p ρ) {top own : String} {C : Body}
    (hC : (own, C) ∈ p.body.conjuncts) (htop : chart.link top = none)
    (hl : C.Each (Body.inPlace top) own) (hnarrow : C.Narrow) (hv : v ∈ C.targets) :
    chart.SaturatedAt data (env.extend ρ) v := by
  refine h.saturatedAt fun _ _ hσ hclosed hf hn ha => (Body.sections_fill_conjunct hC ?_).group
  obtain ⟨hown, hfits⟩ := h.fits.of_mem_conjuncts hC
  obtain ⟨-, hfollowed⟩ := hf.of_mem_conjuncts hC
  obtain ⟨⟨n', hn'⟩, hanchor⟩ := Body.anchored_conjunct hσ hown hn ha
  exact (Body.sections_fill h.ordered hσ hclosed h.unlinked htop hfits hfollowed hl hnarrow hn'
    (hanchor.or h.ordered hσ hfits hfollowed hn') hv).group.append_right

end Pattern
end EntityGraph
