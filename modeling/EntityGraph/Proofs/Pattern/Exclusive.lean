import EntityGraph.Proofs.Pattern.Together

/-!
# Variables of different alternatives

A solution takes one alternative of a level. So if a variable is led to in one alternative only, and another
variable only in a different one, no solution binds both, whatever the data is: the alternatives stand in one
union, and a part of a pattern that does not lead to a variable says nothing about it.
-/
namespace EntityGraph

open Sparql

namespace Sparql.Group

variable {data : Dataset} {V : Set String} {x y : String} {G H : Group}

def Omits (data : Dataset) (V : Set String) (G : Group) : Prop :=
  ∀ found, ∀ ρ ∈ G.extend data .empty found, ∃ μ ∈ found, ∀ v ∈ V, ρ.get? v = μ.get? v

theorem omits_nil : Omits data V nil := fun _ ρ hρ => ⟨ρ, hρ, fun _ _ => rfl⟩

theorem Omits.append (hG : G.Omits data V) (hH : H.Omits data V) : (G.append H).Omits data V := by
  intro found ρ hρ
  rw [extend_append] at hρ
  obtain ⟨μ, hμ, hlater⟩ := hH _ ρ hρ
  obtain ⟨ν, hν, hearlier⟩ := hG _ μ hμ
  exact ⟨ν, hν, fun v hv => (hlater v hv).trans (hearlier v hv)⟩

theorem Omits.solutions (h : G.Omits data V) {ρ : Solution} (hρ : ρ ∈ G.solutions data .empty) :
    ∀ v ∈ V, ρ.get? v = none := by
  obtain ⟨μ, hμ, hsame⟩ := h [[]] ρ hρ
  obtain rfl := List.mem_singleton.mp hμ
  exact hsame

theorem get?_merge_of_none {μ ν : Solution} (h : ν.get? x = none) : (μ.merge ν).get? x = μ.get? x := by
  rw [Solution.get?_merge, h, Option.or_none]

theorem omits_triple {t : Triple} (h : ∀ v ∈ V, ¬ t.HasEnd v) : Omits data V (triple t nil) := by
  intro found ρ hρ
  obtain ⟨μ, hμ, ν, hν, -, rfl⟩ := mem_join.mp hρ
  obtain ⟨-, -, -, -, -, hends⟩ := Dataset.mem_matching hν
  refine ⟨μ, hμ, fun v hv => get?_merge_of_none ?_⟩
  by_contra hbound
  obtain ⟨a, ha⟩ := Option.ne_none_iff_exists'.mp hbound
  exact h v hv (hends v a ha).2

theorem omits_ofTriples {ts : List Triple} (h : ∀ t ∈ ts, ∀ v ∈ V, ¬ t.HasEnd v) :
    Omits data V (ofTriples ts) := by
  induction ts with
  | nil => exact omits_nil
  | cons t rest ih =>
      obtain ⟨ht, hrest⟩ := List.forall_mem_cons.mp h
      exact (omits_triple ht).append (ih hrest)

theorem omits_concat {groups : List Group} (h : ∀ g ∈ groups, Omits data V g) :
    Omits data V (concat groups) := by
  induction groups with
  | nil => exact omits_nil
  | cons g rest ih =>
      obtain ⟨hg, hrest⟩ := List.forall_mem_cons.mp h
      exact hg.append (ih hrest)

theorem omits_union {groups : List Group} (h : ∀ g ∈ groups, Omits data V g) :
    Omits data V (union groups) := by
  unfold union
  split
  · exact omits_nil
  · intro found ρ hρ
    obtain ⟨μ, hμ, ν, hν, -, rfl⟩ := mem_join.mp hρ
    obtain ⟨g, hg, hν⟩ := mem_unionSolutions.mp hν
    exact ⟨μ, hμ, fun v hv => get?_merge_of_none ((h g hg).solutions hν v hv)⟩

theorem omits_optional {body : Group} (h : body.Omits data V) : Omits data V (optional body nil) := by
  intro found ρ hρ
  obtain ⟨μ, hμ, ν, hν, -, rfl⟩ | ⟨hρ, -⟩ := mem_leftJoin.mp hρ
  · exact ⟨μ, hμ, fun v hv => get?_merge_of_none (h.solutions hν v hv)⟩
  · exact ⟨ρ, hρ, fun _ _ => rfl⟩

/-- Solutions that bind neither variable are extended to solutions that do not bind both. -/
def Separates (data : Dataset) (x y : String) (G : Group) : Prop :=
  ∀ found : List Solution, (∀ μ ∈ found, μ.get? x = none ∧ μ.get? y = none) →
    ∀ ρ ∈ G.extend data .empty found, ρ.get? x = none ∨ ρ.get? y = none

theorem Separates.solutions (h : G.Separates data x y) {ρ : Solution} (hρ : ρ ∈ G.solutions data .empty) :
    ρ.get? x = none ∨ ρ.get? y = none :=
  h [[]] (fun _ hμ => List.mem_singleton.mp hμ ▸ ⟨rfl, rfl⟩) ρ hρ

theorem Omits.separates {v : String} (hv : v = x ∨ v = y) (h : G.Omits data {v}) : G.Separates data x y := by
  intro found hfound ρ hρ
  obtain ⟨μ, hμ, hsame⟩ := h found ρ hρ
  obtain ⟨hx, hy⟩ := hfound μ hμ
  rcases hv with rfl | rfl
  · left
    rw [hsame v rfl, hx]
  · right
    rw [hsame v rfl, hy]

theorem Omits.append_separates (hG : G.Omits data {x, y}) (hH : H.Separates data x y) :
    (G.append H).Separates data x y := by
  intro found hfound ρ hρ
  rw [extend_append] at hρ
  refine hH _ (fun μ hμ => ?_) ρ hρ
  obtain ⟨ν, hν, hsame⟩ := hG found μ hμ
  obtain ⟨hx, hy⟩ := hfound ν hν
  constructor
  · calc μ.get? x = ν.get? x := hsame x (Or.inl rfl)
      _ = none := hx
  · calc μ.get? y = ν.get? y := hsame y (Or.inr rfl)
      _ = none := hy

theorem Separates.append_omits (hG : G.Separates data x y) (hH : H.Omits data {x, y}) :
    (G.append H).Separates data x y := by
  intro found hfound ρ hρ
  rw [extend_append] at hρ
  obtain ⟨μ, hμ, hsame⟩ := hH _ ρ hρ
  rw [hsame x (Or.inl rfl), hsame y (Or.inr rfl)]
  exact hG found hfound μ hμ

section Selection

variable {α : Type} {f : α → Group} {p : α → Bool} {before after : List α} {a : α}

theorem separates_selection (ha : p a = true) (h : (f a).Separates data x y)
    (hothers : ∀ b ∈ before ++ after, (f b).Omits data {x, y}) :
    (concat (((before ++ a :: after).filter p).map f)).Separates data x y := by
  induction before with
  | nil =>
      rw [List.nil_append, List.filter_cons_of_pos ha, List.map_cons]
      refine h.append_omits (omits_concat fun g hg => ?_)
      obtain ⟨b, hb, rfl⟩ := List.mem_map.mp hg
      exact hothers b (List.mem_filter.mp hb).1
  | cons b rest ih =>
      obtain ⟨hb, hrest⟩ := List.forall_mem_cons.mp hothers
      rw [List.cons_append, List.filter_cons]
      split
      · exact hb.append_separates (ih hrest)
      · exact ih hrest

theorem omits_selection (ha : p a = false) (hothers : ∀ b ∈ before ++ after, (f b).Omits data V) :
    (concat (((before ++ a :: after).filter p).map f)).Omits data V := by
  refine omits_concat fun g hg => ?_
  obtain ⟨b, hb, rfl⟩ := List.mem_map.mp hg
  obtain ⟨hb, hp⟩ := List.mem_filter.mp hb
  rw [List.mem_append, List.mem_cons] at hb
  obtain hb | rfl | hb := hb
  · exact hothers b (List.mem_append_left _ hb)
  · simp [ha] at hp
  · exact hothers b (List.mem_append_right _ hb)

end Selection

theorem separates_union {groups : List Group} (h : ∀ g ∈ groups, g.Separates data x y) :
    (union groups).Separates data x y := by
  unfold union
  split
  · exact fun _ hfound μ hμ => Or.inl (hfound μ hμ).1
  · intro found hfound ρ hρ
    obtain ⟨μ, hμ, ν, hν, -, rfl⟩ := mem_join.mp hρ
    obtain ⟨g, hg, hν⟩ := mem_unionSolutions.mp hν
    obtain ⟨hx, hy⟩ := hfound μ hμ
    simpa only [Solution.get?_merge, hx, hy, Option.none_or] using (h g hg).solutions hν

theorem separates_optional {body : Group} (h : body.Separates data x y) :
    (optional body nil).Separates data x y := by
  intro found hfound ρ hρ
  obtain ⟨μ, hμ, ν, hν, -, rfl⟩ | ⟨hρ, -⟩ := mem_leftJoin.mp hρ
  · obtain ⟨hx, hy⟩ := hfound μ hμ
    simpa only [Solution.get?_merge, hx, hy, Option.none_or] using h.solutions hν
  · exact Or.inl (hfound ρ hρ).1

end Sparql.Group

namespace Body

variable {data : Dataset} {V : Set String} {x y v root : String} {B C below : Body} {e : Edge}
  {inherited : Option Triple}

/-- The nearest triple around what hangs at a root does not mention a variable that the own triples there do
not mention. -/
theorem not_hasEnd_anchor (hown : ∀ t ∈ B.ownTriples root, ¬ t.HasEnd v)
    (hinherited : ∀ t, inherited = some t → ¬ t.HasEnd v) :
    ∀ t, (B.ownTriples root).head?.or inherited = some t → ¬ t.HasEnd v := by
  intro t ht
  obtain ht | ⟨-, ht⟩ := Option.or_eq_some_iff.mp ht
  · exact hown t (List.mem_of_mem_head? ht)
  · exact hinherited t ht

theorem not_hasEnd_lead (h : ∀ t, inherited = some t → ¬ t.HasEnd v) :
    ∀ t ∈ B.lead root inherited, ¬ t.HasEnd v := by
  intro t ht
  unfold lead at ht
  split at ht
  · exact h t (Option.mem_toList.mp ht)
  · simp at ht

theorem written_omits (hV : V.Nonempty) (hB : ∀ v ∈ V, B.Each (without v) root)
    (htargets : ∀ v ∈ V, v ∉ B.targets) (hroot : ∀ v ∈ V, root ≠ v)
    (hinherited : ∀ v ∈ V, ∀ t, inherited = some t → ¬ t.HasEnd v) :
    (B.written root inherited).Omits data V := by
  induction hsize : sizeOf B using Nat.strong_induction_on generalizing B root inherited with
  | _ size ih =>
      obtain ⟨v₀, hv₀⟩ := hV
      have hedge : ∀ entry ∈ B.edges, ∀ v ∈ V, entry.1.target ≠ v := fun entry hentry v hv htarget =>
        htargets v hv (mem_targets_of_mem_edges hentry (Or.inl htarget.symm))
      have htriple : ∀ entry ∈ B.edges, ∀ v ∈ V, ¬ (entry.1.triple root).HasEnd v :=
        fun entry hentry v hv hend =>
        (Edge.hasEnd_triple.mp hend).elim (fun h => hroot v hv h.symm) fun h => hedge entry hentry v hv h.symm
      have hbelow : ∀ entry ∈ B.edges,
          (entry.2.written entry.1.target (some (entry.1.triple root))).Omits data V := fun entry hentry =>
        ih _ (hsize ▸ sizeOf_edges hentry) (fun v hv => ((hB v hv).of_mem_edges hentry).2)
          (fun v hv hmem => htargets v hv (mem_targets_of_mem_edges hentry (Or.inr hmem)))
          (hedge entry hentry) (fun v hv t ht => Option.some.inj ht ▸ htriple entry hentry v hv) rfl
      have hown : ∀ v ∈ V, ∀ t ∈ B.ownTriples root, ¬ t.HasEnd v := fun v hv =>
        not_hasEnd_ownTriples (hB v hv) (hroot v hv) fun entry hentry =>
          hedge entry (List.mem_filter.mp hentry).1 v hv
      have hanchor := fun v hv => not_hasEnd_anchor (hown v hv) (hinherited v hv)
      have hothers : B.others = [] := by
        rw [others, (hB v₀ hv₀).conjuncts_eq_nil fun _ _ => id]
        rfl
      rw [written_eq]
      refine (Group.omits_ofTriples fun t ht v hv => hown v hv t ht).append (.append (Group.omits_concat ?_)
        (.append ?_ (.append (Group.omits_union ?_) (Group.omits_concat ?_))))
      · intro g hg
        obtain ⟨entry, hentry, rfl⟩ := List.mem_map.mp hg
        exact hbelow entry (List.mem_filter.mp hentry).1
      · rw [hothers]
        exact Group.omits_nil
      · intro g hg
        obtain ⟨inner, hinner, rfl⟩ := List.mem_map.mp hg
        have hmem := (List.mem_filter.mp hinner).1
        refine (Group.omits_ofTriples fun t ht v hv => not_hasEnd_lead (hanchor v hv) t ht).append ?_
        exact ih _ (hsize ▸ sizeOf_alternatives hmem) (fun v hv => (hB v hv).of_mem_alternatives hmem)
          (fun v hv hin => htargets v hv (mem_targets_of_mem_alternatives hmem hin)) hroot hanchor rfl
      · intro g hg
        obtain ⟨entry, hentry, rfl⟩ := List.mem_map.mp hg
        have hmem := (List.mem_filter.mp hentry).1
        exact Group.omits_optional (.append (G := .triple (entry.1.triple root) .nil)
          (Group.omits_triple (htriple entry hmem)) (hbelow entry hmem))

def overEdge (entry : Edge × Body) : List String := entry.1.target :: entry.2.targets

theorem count_targets (B : Body) (v : String) : B.targets.count v = (B.edges.flatMap overEdge).count v +
    ((B.alternatives.flatMap targets).count v +
      (B.conjuncts.flatMap fun entry => entry.2.targets).count v) := by
  induction B with
  | nil => rfl
  | leaf predicate term rest ih => exact ih
  | edge e below rest _ ih =>
      simp only [targets, edges, alternatives, conjuncts, overEdge, List.flatMap_cons, List.count_append,
        List.count_cons, ih]
      omega
  | alternative isSlot body rest _ ih =>
      simp only [targets, edges, alternatives, conjuncts, List.flatMap_cons, List.count_append, ih]
      omega
  | conjunct own body rest _ ih =>
      simp only [targets, edges, alternatives, conjuncts, List.flatMap_cons, List.count_append, ih]
      omega

theorem not_mem_of_count_flatMap {α : Type} {f : α → List String} {before after : List α} {a : α}
    (h : ((before ++ a :: after).flatMap f).count v ≤ 1) (ha : v ∈ f a) :
    (f a).count v = 1 ∧ ∀ b ∈ before ++ after, v ∉ f b := by
  have hpos := List.count_pos_iff.mpr ha
  simp only [List.flatMap_append, List.flatMap_cons, List.count_append] at h
  have hzero : (before.flatMap f).count v + (after.flatMap f).count v = 0 := by omega
  rw [← List.count_append, ← List.flatMap_append, List.count_eq_zero] at hzero
  exact ⟨by omega, fun b hb hv => hzero (List.mem_flatMap.mpr ⟨b, hb, hv⟩)⟩

theorem once_below {before after : List (Edge × Body)} (hedges : B.edges = before ++ (e, below) :: after)
    (hcount : B.targets.count v ≤ 1) (hv : v ∈ below.targets) :
    below.targets.count v ≤ 1 ∧ e.target ≠ v ∧ (∀ entry ∈ before ++ after, v ∉ overEdge entry) ∧
      ∀ inner ∈ B.alternatives, v ∉ inner.targets := by
  rw [count_targets, hedges] at hcount
  have hmem : v ∈ overEdge (e, below) := List.mem_cons_of_mem _ hv
  obtain ⟨hone, hothers⟩ := not_mem_of_count_flatMap ((Nat.le_add_right _ _).trans hcount) hmem
  have hpos := List.count_pos_iff.mpr hv
  simp only [overEdge, List.count_cons] at hone
  refine ⟨by omega, fun htarget => ?_, hothers, fun inner hinner hin => ?_⟩
  · simp only [htarget, beq_self_eq_true, if_true] at hone
    omega
  · have hover : 0 < ((before ++ (e, below) :: after).flatMap overEdge).count v :=
      List.count_pos_iff.mpr (List.mem_flatMap.mpr ⟨_, by simp, hmem⟩)
    have hunion : 0 < (B.alternatives.flatMap targets).count v :=
      List.count_pos_iff.mpr (List.mem_flatMap.mpr ⟨inner, hinner, hin⟩)
    omega

theorem once_within {before after : List Body} (halternatives : B.alternatives = before ++ C :: after)
    (hcount : B.targets.count v ≤ 1) (hv : v ∈ C.targets) :
    C.targets.count v ≤ 1 ∧ (∀ entry ∈ B.edges, v ∉ overEdge entry) ∧ ∀ inner ∈ before ++ after,
      v ∉ inner.targets := by
  rw [count_targets, halternatives] at hcount
  have halone : ((before ++ C :: after).flatMap targets).count v ≤ 1 := by omega
  obtain ⟨hone, hothers⟩ := not_mem_of_count_flatMap halone hv
  refine ⟨hone.le, fun entry hentry hin => ?_, hothers⟩
  have hover : 0 < (B.edges.flatMap overEdge).count v :=
    List.count_pos_iff.mpr (List.mem_flatMap.mpr ⟨entry, hentry, hin⟩)
  have hunion : 0 < ((before ++ C :: after).flatMap targets).count v :=
    List.count_pos_iff.mpr (List.mem_flatMap.mpr ⟨C, by simp, hv⟩)
  omega

section Merge

variable {f : Body → Body} {n : Nat}

theorem count_updateEdge_le (B : Body) (e : Edge) (hf : ∀ there : Body, (f there).targets.count v ≤
    there.targets.count v + n) : (B.updateEdge e f).targets.count v ≤
      B.targets.count v + ([e.target].count v + n) := by
  induction B with
  | nil =>
      have hnew := hf nil
      simp only [targets, List.count_nil, List.count_cons, List.append_nil, updateEdge] at hnew ⊢
      omega
  | leaf predicate term rest ih => exact ih
  | edge e' below rest _ ih =>
      have hbelow := hf below
      unfold updateEdge
      split
      · simp only [targets, List.count_cons, List.count_append]
        omega
      · simp only [targets, List.count_cons, List.count_append] at ih ⊢
        omega
  | alternative isSlot body rest _ ih =>
      simp only [updateEdge, targets, List.count_append]
      omega
  | conjunct own body rest _ ih =>
      simp only [updateEdge, targets, List.count_append]
      omega

theorem count_updateSlot_le (B : Body) (hf : ∀ there : Body, (f there).targets.count v ≤
    there.targets.count v + n) : (B.updateSlot f).targets.count v ≤ B.targets.count v + n := by
  induction B with
  | nil => simpa [updateSlot, targets] using hf nil
  | leaf predicate term rest ih => exact ih
  | edge e below rest _ ih =>
      simp only [updateSlot, targets, List.count_cons, List.count_append]
      omega
  | alternative isSlot body rest _ ih =>
      have hbody := hf body
      cases isSlot with
      | true =>
          simp only [updateSlot, targets, List.count_append]
          omega
      | false =>
          simp only [updateSlot, targets, List.count_append]
          omega
  | conjunct own body rest _ ih =>
      simp only [updateSlot, targets, List.count_append]
      omega

theorem count_merge_le (B C : Body) (v : String) :
    (B.merge C).targets.count v ≤ B.targets.count v + C.targets.count v := by
  induction C generalizing B with
  | nil => simp [merge, targets]
  | leaf predicate term rest ih =>
      simpa only [merge, targets, targets_addLeaf] using ih (B.addLeaf predicate term)
  | edge e below rest ihBelow ih =>
      have hhere := count_updateEdge_le B e ihBelow
      have hrest := ih (B.updateEdge e fun there => there.merge below)
      simp only [merge, targets, List.count_cons, List.count_append, List.count_nil] at hhere hrest ⊢
      omega
  | alternative isSlot body rest ihBody ih =>
      cases isSlot with
      | true =>
          have hhere := count_updateSlot_le B ihBody
          have hrest := ih (B.updateSlot fun there => there.merge body)
          simp only [merge, targets, List.count_append] at hhere hrest ⊢
          omega
      | false =>
          have hrest := ih (B.append (.alternative false body nil))
          simp only [merge, targets, targets_append, List.count_append, List.append_nil] at hrest ⊢
          omega
  | conjunct own body rest _ ih =>
      have hrest := ih (B.append (.conjunct own body nil))
      simp only [merge, targets, targets_append, List.count_append, List.append_nil] at hrest ⊢
      omega

theorem mem_targets_of_merge (h : v ∈ (B.merge C).targets) : v ∈ B.targets ∨ v ∈ C.targets := by
  have hcount := count_merge_le B C v
  rw [← List.count_pos_iff] at h
  simp only [← List.count_pos_iff]
  omega

end Merge

/-- On some level of the pattern, one alternative leads to `x` and a later one to `y`. -/
inductive Forks (x y : String) : Body → Prop
  | here {B A A' : Body} (h : [A, A'].Sublist B.alternatives) (hx : x ∈ A.targets)
      (hy : y ∈ A'.targets) : Forks x y B
  | edge {B below : Body} {e : Edge} (h : (e, below) ∈ B.edges) (hbelow : Forks x y below) : Forks x y B
  | alternative {B A : Body} (h : A ∈ B.alternatives) (hA : Forks x y A) : Forks x y B

theorem Forks.mem_targets (h : B.Forks x y) : x ∈ B.targets ∧ y ∈ B.targets := by
  induction h with
  | here h hx hy =>
      exact ⟨mem_targets_of_mem_alternatives (h.subset (by simp)) hx,
        mem_targets_of_mem_alternatives (h.subset (by simp)) hy⟩
  | edge h _ ih => exact ih.imp (fun hx => mem_targets_of_mem_edges h (Or.inr hx)) fun hy =>
      mem_targets_of_mem_edges h (Or.inr hy)
  | alternative h _ ih => exact ih.imp (mem_targets_of_mem_alternatives h) (mem_targets_of_mem_alternatives h)

/-- Around the pattern nothing mentions the two variables, and it has no leaves that do and no conjuncts. -/
structure Clear (x y root : String) (inherited : Option Triple) (B : Body) : Prop where
  each : ∀ v ∈ ({x, y} : Set String), B.Each (without v) root
  root : ∀ v ∈ ({x, y} : Set String), root ≠ v
  inherited : ∀ v ∈ ({x, y} : Set String), ∀ t, inherited = some t → ¬ t.HasEnd v

namespace Clear

variable {entry : Edge × Body} (h : B.Clear x y root inherited)

include h

theorem others_eq_nil : B.others = [] := by
  rw [others, (h.each x (Or.inl rfl)).conjuncts_eq_nil fun _ _ => id]
  rfl

theorem not_hasEnd_triple (htarget : ∀ v ∈ ({x, y} : Set String), e.target ≠ v) :
    ∀ v ∈ ({x, y} : Set String), ¬ (e.triple root).HasEnd v := fun v hv hend =>
  (Edge.hasEnd_triple.mp hend).elim (fun heq => h.root v hv heq.symm) fun heq => htarget v hv heq.symm

theorem not_hasEnd_ownTriples (htarget : ∀ entry ∈ B.edges, ∀ v ∈ ({x, y} : Set String), entry.1.target ≠ v) :
    ∀ v ∈ ({x, y} : Set String), ∀ t ∈ B.ownTriples root, ¬ t.HasEnd v := fun v hv =>
  Body.not_hasEnd_ownTriples (h.each v hv) (h.root v hv) fun entry hentry =>
    htarget entry (List.mem_filter.mp hentry).1 v hv

theorem edge (hentry : entry ∈ B.edges) (htarget : ∀ v ∈ ({x, y} : Set String), entry.1.target ≠ v) :
    entry.2.Clear x y entry.1.target (some (entry.1.triple root)) where
  each v hv := ((h.each v hv).of_mem_edges hentry).2
  root := htarget
  inherited v hv _ ht := Option.some.inj ht ▸ h.not_hasEnd_triple htarget v hv

theorem alternative (hC : C ∈ B.alternatives)
    (htarget : ∀ entry ∈ B.edges, ∀ v ∈ ({x, y} : Set String), entry.1.target ≠ v) :
    C.Clear x y root ((B.ownTriples root).head?.or inherited) where
  each v hv := (h.each v hv).of_mem_alternatives hC
  root := h.root
  inherited v hv := not_hasEnd_anchor (h.not_hasEnd_ownTriples htarget v hv) (h.inherited v hv)

theorem omits (htargets : ∀ v ∈ ({x, y} : Set String), v ∉ B.targets) :
    (B.written root inherited).Omits data {x, y} :=
  written_omits ⟨x, Or.inl rfl⟩ h.each htargets h.root h.inherited

theorem separates_of_not_mem (hv : v = x ∨ v = y) (htargets : v ∉ B.targets) :
    (B.written root inherited).Separates data x y := by
  have hmem : ∀ w ∈ ({v} : Set String), w ∈ ({x, y} : Set String) := fun w hw => hw ▸ hv
  refine Group.Omits.separates hv (written_omits (Set.singleton_nonempty v) (fun w hw => h.each w (hmem w hw))
    (fun w hw => ?_) (fun w hw => h.root w (hmem w hw)) fun w hw => h.inherited w (hmem w hw))
  obtain rfl : w = v := hw
  exact htargets

theorem omits_ownTriples (htarget : ∀ entry ∈ B.edges, ∀ v ∈ ({x, y} : Set String), entry.1.target ≠ v) :
    (Group.ofTriples (B.ownTriples root)).Omits data {x, y} :=
  Group.omits_ofTriples fun t ht v hv => h.not_hasEnd_ownTriples htarget v hv t ht

theorem omits_lead : (Group.ofTriples (B.lead root inherited)).Omits data {x, y} :=
  Group.omits_ofTriples fun t ht v hv => not_hasEnd_lead (h.inherited v hv) t ht

theorem omits_below (hentry : entry ∈ B.edges) (hover : ∀ v ∈ ({x, y} : Set String), v ∉ overEdge entry) :
    (entry.2.written entry.1.target (some (entry.1.triple root))).Omits data {x, y} :=
  (h.edge hentry fun v hv htarget => hover v hv (List.mem_cons.mpr (Or.inl htarget.symm))).omits
    fun v hv hin => hover v hv (List.mem_cons_of_mem _ hin)

theorem omits_optional (hentry : entry ∈ B.edges) (hover : ∀ v ∈ ({x, y} : Set String), v ∉ overEdge entry) :
    (Group.optional (.triple (entry.1.triple root)
      (entry.2.written entry.1.target (some (entry.1.triple root)))) .nil).Omits data {x, y} := by
  have htarget : ∀ v ∈ ({x, y} : Set String), entry.1.target ≠ v := by
    rintro v hv rfl
    exact hover _ hv List.mem_cons_self
  have htriple : (Group.triple (entry.1.triple root) .nil).Omits data {x, y} :=
    Group.omits_triple (h.not_hasEnd_triple htarget)
  have hbelow : (entry.2.written entry.1.target (some (entry.1.triple root))).Omits data {x, y} :=
    h.omits_below hentry hover
  apply Group.omits_optional
  exact htriple.append hbelow

theorem separates_alternatives (hover : ∀ entry ∈ B.edges, ∀ v ∈ ({x, y} : Set String), v ∉ overEdge entry)
    (hinner : ∀ inner ∈ B.alternatives, inner.Clear x y root ((B.ownTriples root).head?.or inherited) →
      (inner.written root ((B.ownTriples root).head?.or inherited)).Separates data x y) :
    (B.written root inherited).Separates data x y := by
  have htarget : ∀ entry ∈ B.edges, ∀ v ∈ ({x, y} : Set String), entry.1.target ≠ v :=
    fun entry hentry v hv heq => hover entry hentry v hv (List.mem_cons.mpr (Or.inl heq.symm))
  have hplains : (Group.concat (B.plains.map fun entry =>
      entry.2.written entry.1.target (some (entry.1.triple root)))).Omits data {x, y} := by
    refine Group.omits_concat fun g hg => ?_
    obtain ⟨entry, hentry, rfl⟩ := List.mem_map.mp hg
    have hmem := (List.mem_filter.mp hentry).1
    exact h.omits_below hmem (hover entry hmem)
  have hunion : (Group.union (B.choices.map fun inner =>
      (Group.ofTriples (inner.lead root ((B.ownTriples root).head?.or inherited))).append
        (inner.written root ((B.ownTriples root).head?.or inherited)))).Separates data x y := by
    refine Group.separates_union fun g hg => ?_
    obtain ⟨inner, hmem, rfl⟩ := List.mem_map.mp hg
    have hmem := (List.mem_filter.mp hmem).1
    have hclear := h.alternative hmem htarget
    exact hclear.omits_lead.append_separates (hinner inner hmem hclear)
  have hoptionals : (Group.concat (B.optionals.map fun entry => .optional (.triple (entry.1.triple root)
      (entry.2.written entry.1.target (some (entry.1.triple root)))) .nil)).Omits data {x, y} := by
    refine Group.omits_concat fun g hg => ?_
    obtain ⟨entry, hentry, rfl⟩ := List.mem_map.mp hg
    have hmem := (List.mem_filter.mp hentry).1
    exact h.omits_optional hmem (hover entry hmem)
  rw [written_eq, h.others_eq_nil]
  apply (h.omits_ownTriples htarget).append_separates
  apply hplains.append_separates
  apply Group.omits_nil.append_separates
  exact hunion.append_omits hoptionals

theorem separates_alternative {A : Body} {before after : List Body}
    (hsplit : B.alternatives = before ++ A :: after)
    (hx : ∀ entry ∈ B.edges, x ∉ overEdge entry) (hy : ∀ entry ∈ B.edges, y ∉ overEdge entry)
    (hothers : ∀ inner ∈ before ++ after, x ∉ inner.targets)
    (hA : ∀ inherited, A.Clear x y root inherited → (A.written root inherited).Separates data x y) :
    (B.written root inherited).Separates data x y := by
  refine h.separates_alternatives ?_ fun inner hinner hinside => ?_
  · rintro entry hentry v (rfl | rfl)
    · exact hx entry hentry
    · exact hy entry hentry
  · by_cases hsame : inner = A
    · subst hsame
      exact hA _ hinside
    · refine hinside.separates_of_not_mem (Or.inl rfl) (hothers inner ?_)
      simpa [hsplit, hsame] using hinner

theorem separates_edge {before after : List (Edge × Body)} (hedges : B.edges = before ++ (e, below) :: after)
    (hhere : ∀ v ∈ ({x, y} : Set String), e.target ≠ v)
    (hover : ∀ entry ∈ before ++ after, ∀ v ∈ ({x, y} : Set String), v ∉ overEdge entry)
    (hinner : ∀ inner ∈ B.alternatives, ∀ v ∈ ({x, y} : Set String), v ∉ inner.targets)
    (hbelow : (below.written e.target (some (e.triple root))).Separates data x y) :
    (B.written root inherited).Separates data x y := by
  have hmem : ∀ entry ∈ before ++ after, entry ∈ B.edges := fun entry hentry => by
    rw [hedges]
    exact List.mem_append.mpr ((List.mem_append.mp hentry).imp_right (List.mem_cons_of_mem _))
  have htarget : ∀ entry ∈ B.edges, ∀ v ∈ ({x, y} : Set String), entry.1.target ≠ v := by
    intro entry hentry v hv heq
    rw [hedges, List.mem_append, List.mem_cons] at hentry
    obtain hentry | rfl | hentry := hentry
    · exact hover entry (List.mem_append_left _ hentry) v hv (List.mem_cons.mpr (Or.inl heq.symm))
    · exact hhere v hv heq
    · exact hover entry (List.mem_append_right _ hentry) v hv (List.mem_cons.mpr (Or.inl heq.symm))
  have hunion : (Group.union (B.choices.map fun inner => (Group.ofTriples (inner.lead root
      ((B.ownTriples root).head?.or inherited))).append (inner.written root
        ((B.ownTriples root).head?.or inherited)))).Omits data {x, y} := by
    refine Group.omits_union fun g hg => ?_
    obtain ⟨inner, hin, rfl⟩ := List.mem_map.mp hg
    have hin := (List.mem_filter.mp hin).1
    have hclear := h.alternative hin htarget
    exact hclear.omits_lead.append (hclear.omits (hinner inner hin))
  have hplains : ∀ entry ∈ before ++ after,
      (entry.2.written entry.1.target (some (entry.1.triple root))).Omits data {x, y} :=
    fun entry hentry => h.omits_below (hmem entry hentry) (hover entry hentry)
  have hoptionals : ∀ entry ∈ before ++ after, (Group.optional (.triple (entry.1.triple root)
      (entry.2.written entry.1.target (some (entry.1.triple root)))) .nil).Omits data {x, y} :=
    fun entry hentry => h.omits_optional (hmem entry hentry) (hover entry hentry)
  rw [written_eq, h.others_eq_nil, plains, optionals, hedges]
  refine (h.omits_ownTriples htarget).append_separates ?_
  cases hopt : e.isOptional with
  | false =>
      refine Group.Separates.append_omits ?_ (Group.omits_nil.append (hunion.append ?_))
      · exact Group.separates_selection (by simp [hopt]) hbelow hplains
      · exact Group.omits_selection hopt hoptionals
  | true =>
      refine Group.Omits.append_separates ?_ (Group.omits_nil.append_separates (hunion.append_separates ?_))
      · exact Group.omits_selection (by simp [hopt]) hplains
      · refine Group.separates_selection hopt (Group.separates_optional ?_) hoptionals
        exact (Group.omits_triple (h.not_hasEnd_triple hhere)).append_separates hbelow

end Clear

/-- Solutions do not bind both variables, if each of them is led to once. -/
theorem Forks.separates (h : B.Forks x y) (hx : B.targets.count x ≤ 1) (hy : B.targets.count y ≤ 1)
    (hclear : B.Clear x y root inherited) : (B.written root inherited).Separates data x y := by
  induction h generalizing root inherited with
  | @here B A A' hsub hxA hyA' =>
      obtain ⟨l, l', hsplit, hA, hA'⟩ := List.cons_sublist_iff.mp hsub
      obtain ⟨s, t, rfl⟩ := List.append_of_mem hA
      obtain ⟨s', t', rfl⟩ := List.append_of_mem (hA'.subset (List.mem_singleton_self A'))
      have hfirst : B.alternatives = s ++ A :: (t ++ (s' ++ A' :: t')) := by simpa using hsplit
      have hsecond : B.alternatives = (s ++ A :: t ++ s') ++ A' :: t' := by simpa using hsplit
      obtain ⟨-, hxEdges, hxOthers⟩ := once_within hfirst hx hxA
      obtain ⟨-, hyEdges, hyOthers⟩ := once_within hsecond hy hyA'
      exact hclear.separates_alternative hfirst hxEdges hyEdges hxOthers fun _ hinside =>
        hinside.separates_of_not_mem (Or.inr rfl) (hyOthers A (by simp))
  | @edge B below e hedge hbelow ih =>
      obtain ⟨before, after, hedges⟩ := List.append_of_mem hedge
      obtain ⟨hxBelow, hyBelow⟩ := hbelow.mem_targets
      obtain ⟨hx, hxTarget, hxOver, hxInner⟩ := once_below hedges hx hxBelow
      obtain ⟨hy, hyTarget, hyOver, hyInner⟩ := once_below hedges hy hyBelow
      have htarget : ∀ v ∈ ({x, y} : Set String), e.target ≠ v := by
        rintro v (rfl | rfl)
        · exact hxTarget
        · exact hyTarget
      refine hclear.separates_edge hedges htarget ?_ ?_ (ih hx hy (hclear.edge hedge htarget))
      · rintro entry hentry v (rfl | rfl)
        · exact hxOver entry hentry
        · exact hyOver entry hentry
      · rintro inner hinner v (rfl | rfl)
        · exact hxInner inner hinner
        · exact hyInner inner hinner
  | @alternative B A hmem hA ih =>
      obtain ⟨before, after, hsplit⟩ := List.append_of_mem hmem
      obtain ⟨hxA, hyA⟩ := hA.mem_targets
      obtain ⟨hx, hxEdges, hxOthers⟩ := once_within hsplit hx hxA
      obtain ⟨hy, hyEdges, -⟩ := once_within hsplit hy hyA
      exact hclear.separates_alternative hsplit hxEdges hyEdges hxOthers fun _ => ih hx hy

theorem Forks.of_lists (h : B.Forks x y) (hedges : ∀ entry ∈ B.edges, entry ∈ C.edges)
    (halternatives : B.alternatives.Sublist C.alternatives) : C.Forks x y := by
  cases h with
  | here h hx hy => exact .here (h.trans halternatives) hx hy
  | edge h hbelow => exact .edge (hedges _ h) hbelow
  | alternative h hA => exact .alternative (halternatives.subset h) hA

theorem mem_targets_of_mem_rootedAt {w : String} (hB : B.Each (without w) root) (hC : C ∈ B.rootedAt v) :
    v ∈ B.targets := by
  induction B generalizing root with
  | nil => simp [rootedAt] at hC
  | leaf predicate term rest ih => exact ih hB.2 hC
  | edge e below rest ihBelow ih =>
      simp only [targets, List.mem_cons, List.mem_append]
      obtain hC | hC := List.mem_append.mp hC
      · split at hC
        · next htarget => exact Or.inl htarget.symm
        · simp at hC
      · exact Or.inr ((List.mem_append.mp hC).imp (ihBelow hB.2.1) (ih hB.2.2))
  | alternative isSlot body rest ihBody ih =>
      exact List.mem_append.mpr ((List.mem_append.mp hC).imp (ihBody hB.1) (ih hB.2))
  | conjunct own body rest _ _ => exact absurd hB.1 id

/-- Unless what hangs at `v` is nested, it leads to another variable as often as the pattern at most. -/
theorem length_rootedAt_le {w : String} (hv : ∀ C ∈ B.rootedAt v, C.rootedAt v = []) :
    ((B.rootedAt v).filter fun C => w ∈ C.targets).length ≤ B.targets.count w := by
  have hone : ∀ C : Body, ([C].filter fun C => w ∈ C.targets).length ≤ C.targets.count w := by
    intro C
    by_cases h : w ∈ C.targets
    · simp [h]
    · simp [h]
  induction B with
  | nil => simp [rootedAt]
  | leaf predicate term rest ih => exact ih hv
  | edge e below rest ihBelow ih =>
      have hbelow := ihBelow fun C hC => hv C (List.mem_append_right _ (List.mem_append_left _ hC))
      have hrest := ih fun C hC => hv C (List.mem_append_right _ (List.mem_append_right _ hC))
      have hhere := hone below
      simp only [rootedAt, targets, List.filter_append, List.length_append, List.count_cons,
        List.count_append]
      split
      · next htarget =>
          rw [hv below (by simp [rootedAt, htarget])]
          simp only [List.filter_nil, List.length_nil]
          omega
      · simp only [List.filter_nil, List.length_nil]
        omega
  | alternative isSlot body rest ihBody ih =>
      have hbody := ihBody fun C hC => hv C (List.mem_append_left _ hC)
      have hrest := ih fun C hC => hv C (List.mem_append_right _ hC)
      simp only [rootedAt, targets, List.filter_append, List.length_append, List.count_append]
      omega
  | conjunct own body rest ihBody ih =>
      have hbody := ihBody fun C hC => hv C (List.mem_append_right _ (List.mem_append_left _ hC))
      have hrest := ih fun C hC => hv C (List.mem_append_right _ (List.mem_append_right _ hC))
      have hhere := hone body
      simp only [rootedAt, targets, List.filter_append, List.length_append, List.count_append]
      split
      · next hown =>
          rw [hv body (by simp [rootedAt, hown])]
          simp only [List.filter_nil, List.length_nil]
          omega
      · simp only [List.filter_nil, List.length_nil]
        omega

theorem Forks.of_rootedAt {w : String} (hB : B.Each (without w) root) (hC : C ∈ B.rootedAt v)
    (h : C.Forks x y) : B.Forks x y := by
  induction B generalizing root with
  | nil => simp [rootedAt] at hC
  | leaf predicate term rest ih => exact (ih hB.2 hC).of_lists (fun _ => id) (.refl _)
  | edge e below rest ihBelow ih =>
      obtain hC | hC := List.mem_append.mp hC
      · split at hC
        · obtain rfl := List.mem_singleton.mp hC
          exact .edge List.mem_cons_self h
        · simp at hC
      · obtain hC | hC := List.mem_append.mp hC
        · exact .edge List.mem_cons_self (ihBelow hB.2.1 hC)
        · exact (ih hB.2.2 hC).of_lists (fun _ => List.mem_cons_of_mem _) (.refl _)
  | alternative isSlot body rest ihBody ih =>
      obtain hC | hC := List.mem_append.mp hC
      · exact .alternative List.mem_cons_self (ihBody hB.1 hC)
      · exact (ih hB.2 hC).of_lists (fun _ => id) (List.sublist_cons_self _ _)
  | conjunct own body rest _ _ => exact absurd hB.1 id

end Body

theorem Pattern.eq_of_rootedAt {p : Pattern} {v w : String} {C C' : Body}
    (hcount : p.body.targets.count w ≤ 1)
    (hv : ∀ C ∈ p.rootedAt v, C.rootedAt v = []) (hC : C ∈ p.rootedAt v) (hC' : C' ∈ p.rootedAt v)
    (hw : w ∈ C.targets) (hw' : w ∈ C'.targets) : C = C' := by
  by_cases hroot : p.root = v
  · have hnone := hv p.body (by simp [rootedAt, hroot])
    simp only [rootedAt, hroot, if_true, hnone, List.append_nil, List.mem_singleton] at hC hC'
    exact hC.trans hC'.symm
  · simp only [rootedAt, if_neg hroot, List.nil_append] at hC hC' hv
    have hlength := (Body.length_rootedAt_le (w := w) hv).trans hcount
    have hmem : ∀ {D}, D ∈ p.body.rootedAt v → w ∈ D.targets →
        D ∈ (p.body.rootedAt v).filter fun C => w ∈ C.targets :=
          fun hD hw => List.mem_filter.mpr ⟨hD, by simpa using hw⟩
    obtain ⟨D, hD⟩ := List.length_eq_one_iff.mp (le_antisymm hlength (List.length_pos_of_mem (hmem hC hw)))
    rw [hD] at hmem
    exact (List.mem_singleton.mp (hmem hC hw)).trans (List.mem_singleton.mp (hmem hC' hw')).symm

/-- No solution binds two variables that are led to once each, in different alternatives of a level. -/
theorem Pattern.not_both_bound {p : Pattern} {x y : String} (h : p.body.Forks x y)
    (hx : p.body.targets.count x ≤ 1)
    (hy : p.body.targets.count y ≤ 1) (hp : ∀ v ∈ ({x, y} : Set String), p.body.Each (Body.without v) p.root)
    (hroot : ∀ v ∈ ({x, y} : Set String), p.root ≠ v) {data : Dataset} {μ : Solution}
    (hμ : μ ∈ p.group.solutions data .empty) : μ.get? x = none ∨ μ.get? y = none := by
  rw [group_eq_written] at hμ
  exact (h.separates hx hy ⟨hp, hroot, by simp⟩).solutions hμ

end EntityGraph
