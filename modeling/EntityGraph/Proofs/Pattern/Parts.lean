import EntityGraph.Pattern.Basic
import Mathlib.Tactic.Common

/-!
# The parts of a pattern

What can be said of a pattern part by part: a condition on every leaf, every edge and every
conjunct, each with the root it hangs at. Merging adds no parts of its own, so that conditions
that hold of two patterns at one root hold of the merged one.

`Binds` says which variables one way through a pattern leads to: all plain edges of the levels it
passes, and at each level one edge or one alternative to go on with. Merging keeps the ways of
both patterns.
-/
namespace EntityGraph.Body

/-- A condition on leaves, edges and conjuncts, each with the root it hangs at. -/
structure Condition where
  leaf : String → String → String → Prop
  edge : String → Edge → Prop
  conjunct : String → String → Prop

def Each (c : Condition) : Body → String → Prop
  | nil, _ => True
  | leaf predicate term rest, root => c.leaf root predicate term ∧ rest.Each c root
  | edge e below rest, root => c.edge root e ∧ below.Each c e.target ∧ rest.Each c root
  | alternative _ body rest, root => body.Each c root ∧ rest.Each c root
  | conjunct own body rest, root => c.conjunct root own ∧ body.Each c own ∧ rest.Each c root

section Each

variable {c : Condition} {root : String}

theorem Each.append {B C : Body} (hB : B.Each c root) (hC : C.Each c root) :
    (B.append C).Each c root := by
  induction B with
  | nil => exact hC
  | leaf predicate term rest ih => exact ⟨hB.1, ih hB.2⟩
  | edge e below rest _ ih => exact ⟨hB.1, hB.2.1, ih hB.2.2⟩
  | alternative isSlot body rest _ ih => exact ⟨hB.1, ih hB.2⟩
  | conjunct own body rest _ ih => exact ⟨hB.1, hB.2.1, ih hB.2.2⟩

theorem Each.addLeaf {B : Body} (hB : B.Each c root) {predicate term : String}
    (h : c.leaf root predicate term) : (B.addLeaf predicate term).Each c root := by
  induction B with
  | nil => exact ⟨h, trivial⟩
  | leaf p t rest ih =>
      unfold Body.addLeaf
      split
      · exact hB
      · exact ⟨hB.1, ih hB.2⟩
  | edge e below rest _ ih => exact ⟨hB.1, hB.2.1, ih hB.2.2⟩
  | alternative isSlot body rest _ ih => exact ⟨hB.1, ih hB.2⟩
  | conjunct own body rest _ ih => exact ⟨hB.1, hB.2.1, ih hB.2.2⟩

theorem Each.updateEdge {B : Body} (hB : B.Each c root) {e : Edge} {f : Body → Body}
    (he : c.edge root e) (hf : ∀ there : Body, there.Each c e.target → (f there).Each c e.target) :
    (B.updateEdge e f).Each c root := by
  induction B with
  | nil => exact ⟨he, hf nil trivial, trivial⟩
  | leaf p t rest ih => exact ⟨hB.1, ih hB.2⟩
  | edge e' below rest _ ih =>
      unfold Body.updateEdge
      split
      · next heq =>
          subst heq
          exact ⟨hB.1, hf below hB.2.1, hB.2.2⟩
      · exact ⟨hB.1, hB.2.1, ih hB.2.2⟩
  | alternative isSlot body rest _ ih => exact ⟨hB.1, ih hB.2⟩
  | conjunct own body rest _ ih => exact ⟨hB.1, hB.2.1, ih hB.2.2⟩

theorem Each.updateSlot {B : Body} (hB : B.Each c root) {f : Body → Body}
    (hf : ∀ there : Body, there.Each c root → (f there).Each c root) :
    (B.updateSlot f).Each c root := by
  induction B with
  | nil => exact ⟨hf nil trivial, trivial⟩
  | leaf p t rest ih => exact ⟨hB.1, ih hB.2⟩
  | edge e below rest _ ih => exact ⟨hB.1, hB.2.1, ih hB.2.2⟩
  | alternative isSlot body rest _ ih =>
      cases isSlot with
      | true => exact ⟨hf body hB.1, hB.2⟩
      | false => exact ⟨hB.1, ih hB.2⟩
  | conjunct own body rest _ ih => exact ⟨hB.1, hB.2.1, ih hB.2.2⟩

theorem Each.merge {B C : Body} (hB : B.Each c root) (hC : C.Each c root) :
    (B.merge C).Each c root := by
  induction C generalizing B root with
  | nil => exact hB
  | leaf predicate term rest ih => exact ih (hB.addLeaf hC.1) hC.2
  | edge e below rest ihBelow ih =>
      exact ih (hB.updateEdge hC.1 fun there h => ihBelow h hC.2.1) hC.2.2
  | alternative isSlot body rest ihBody ih =>
      cases isSlot with
      | true => exact ih (hB.updateSlot fun there h => ihBody h hC.1) hC.2
      | false => exact ih (hB.append ⟨hC.1, trivial⟩) hC.2
  | conjunct own body rest _ ih => exact ih (hB.append ⟨hC.1, hC.2.1, trivial⟩) hC.2.2

/-- The root can change if the leaves, edges and conjuncts that hang there may hang at the new one. -/
theorem Each.moved {root' : String} {B : Body} (hB : B.Each c root)
    (hleaf : ∀ p t, c.leaf root p t → c.leaf root' p t) (hedge : ∀ e, c.edge root e → c.edge root' e)
    (hconjunct : ∀ own, c.conjunct root own → c.conjunct root' own) : B.Each c root' := by
  induction B with
  | nil => trivial
  | leaf predicate term rest ih => exact ⟨hleaf _ _ hB.1, ih hB.2⟩
  | edge e below rest _ ih => exact ⟨hedge _ hB.1, hB.2.1, ih hB.2.2⟩
  | alternative isSlot inner rest ihInner ih => exact ⟨ihInner hB.1, ih hB.2⟩
  | conjunct own inner rest _ ih => exact ⟨hconjunct _ hB.1, hB.2.1, ih hB.2.2⟩

theorem Each.mono {d : Condition} {B : Body} (hB : B.Each c root)
    (hleaf : ∀ r p t, c.leaf r p t → d.leaf r p t) (hedge : ∀ r e, c.edge r e → d.edge r e)
    (hconjunct : ∀ r own, c.conjunct r own → d.conjunct r own) : B.Each d root := by
  induction B generalizing root with
  | nil => trivial
  | leaf predicate term rest ih => exact ⟨hleaf _ _ _ hB.1, ih hB.2⟩
  | edge e below rest ihBelow ih => exact ⟨hedge _ _ hB.1, ihBelow hB.2.1, ih hB.2.2⟩
  | alternative isSlot body rest ihBody ih => exact ⟨ihBody hB.1, ih hB.2⟩
  | conjunct own body rest ihBody ih => exact ⟨hconjunct _ _ hB.1, ihBody hB.2.1, ih hB.2.2⟩

end Each

@[grind =] def plainTargets : Body → List String
  | nil => []
  | leaf _ _ rest => rest.plainTargets
  | edge e _ rest => if e.isOptional then rest.plainTargets else e.target :: rest.plainTargets
  | alternative _ _ rest => rest.plainTargets
  | conjunct _ _ rest => rest.plainTargets

@[grind =] def edges : Body → List (Edge × Body)
  | nil => []
  | leaf _ _ rest => rest.edges
  | edge e below rest => (e, below) :: rest.edges
  | alternative _ _ rest => rest.edges
  | conjunct _ _ rest => rest.edges

@[grind =] def alternatives : Body → List Body
  | nil => []
  | leaf _ _ rest => rest.alternatives
  | edge _ _ rest => rest.alternatives
  | alternative _ body rest => body :: rest.alternatives
  | conjunct _ _ rest => rest.alternatives

@[grind =] def conjuncts : Body → List (String × Body)
  | nil => []
  | leaf _ _ rest => rest.conjuncts
  | edge _ _ rest => rest.conjuncts
  | alternative _ _ rest => rest.conjuncts
  | conjunct own body rest => (own, body) :: rest.conjuncts

@[grind =] def inners : Body → List Body
  | nil => []
  | leaf _ _ rest => rest.inners
  | edge _ below rest => below :: rest.inners
  | alternative _ body rest => body :: rest.inners
  | conjunct _ body rest => body :: rest.inners

theorem mem_inners {B C : Body} : C ∈ B.inners ↔
    (∃ e, (e, C) ∈ B.edges) ∨ C ∈ B.alternatives ∨ ∃ own, (own, C) ∈ B.conjuncts := by
  induction B with
  | nil => simp [inners, edges, alternatives, conjuncts]
  | leaf predicate term rest ih => exact ih
  | edge e below rest _ ih => grind
  | alternative isSlot body rest _ ih => grind
  | conjunct own body rest _ ih => grind

theorem sizeOf_inners {B C : Body} (h : C ∈ B.inners) : sizeOf C < sizeOf B := by
  induction B with
  | nil => simp [inners] at h
  | leaf predicate term rest ih =>
      have := ih h
      simp only [leaf.sizeOf_spec]
      omega
  | edge e below rest _ ih =>
      rcases List.mem_cons.mp h with rfl | h
      · simp only [edge.sizeOf_spec]
        omega
      · have := ih h
        simp only [edge.sizeOf_spec]
        omega
  | alternative isSlot body rest _ ih =>
      rcases List.mem_cons.mp h with rfl | h
      · simp only [alternative.sizeOf_spec]
        omega
      · have := ih h
        simp only [alternative.sizeOf_spec]
        omega
  | conjunct own body rest _ ih =>
      rcases List.mem_cons.mp h with rfl | h
      · simp only [conjunct.sizeOf_spec]
        omega
      · have := ih h
        simp only [conjunct.sizeOf_spec]
        omega

theorem Each.of_mem_edges {c : Condition} {root : String} {B below : Body} {e : Edge}
    (hB : B.Each c root) (h : (e, below) ∈ B.edges) : c.edge root e ∧ below.Each c e.target := by
  induction B with
  | nil => simp [edges] at h
  | leaf predicate term rest ih => exact ih hB.2 h
  | edge e' below' rest _ ih =>
      obtain ⟨rfl, rfl⟩ | h := by simpa only [edges, List.mem_cons, Prod.mk.injEq] using h
      · exact ⟨hB.1, hB.2.1⟩
      · exact ih hB.2.2 h
  | alternative isSlot body rest _ ih => exact ih hB.2 h
  | conjunct own body rest _ ih => exact ih hB.2.2 h

theorem Each.of_mem_alternatives {c : Condition} {root : String} {B body : Body}
    (hB : B.Each c root) (h : body ∈ B.alternatives) : body.Each c root := by
  induction B with
  | nil => simp [alternatives] at h
  | leaf predicate term rest ih => exact ih hB.2 h
  | edge e' below' rest _ ih => exact ih hB.2.2 h
  | alternative isSlot body' rest _ ih =>
      obtain rfl | h := List.mem_cons.mp h
      · exact hB.1
      · exact ih hB.2 h
  | conjunct own body' rest _ ih => exact ih hB.2.2 h

/-- One way through the pattern leads to all of the variables. -/
inductive Binds : Body → List String → Prop
  | plain {B : Body} {vs : List String} (h : ∀ v ∈ vs, v ∈ B.plainTargets) : Binds B vs
  | edge {B below : Body} {e : Edge} {vs ws : List String} (he : (e, below) ∈ B.edges)
      (hbelow : Binds below ws) (hsub : ∀ w ∈ e.target :: ws, w ∈ vs)
      (h : ∀ v ∈ vs, v ∈ B.plainTargets ∨ v ∈ e.target :: ws) : Binds B vs
  | alternative {B body : Body} {vs ws : List String} (hb : body ∈ B.alternatives)
      (hbody : Binds body ws) (hsub : ∀ w ∈ ws, w ∈ vs)
      (h : ∀ v ∈ vs, v ∈ B.plainTargets ∨ v ∈ ws) : Binds B vs

theorem Binds.nothing (B : Body) : B.Binds [] := .plain (by simp)

theorem Binds.cons_plain {B : Body} {v : String} {vs : List String} (h : B.Binds vs)
    (hv : v ∈ B.plainTargets) : B.Binds (v :: vs) := by
  cases h with
  | plain h => exact .plain (List.forall_mem_cons.mpr ⟨hv, h⟩)
  | edge he hbelow hsub h =>
      exact .edge he hbelow (fun w hw => List.mem_cons_of_mem _ (hsub w hw))
        (List.forall_mem_cons.mpr ⟨Or.inl hv, h⟩)
  | alternative hb hbody hsub h =>
      exact .alternative hb hbody (fun w hw => List.mem_cons_of_mem _ (hsub w hw))
        (List.forall_mem_cons.mpr ⟨Or.inl hv, h⟩)

theorem Binds.below_edge {below : Body} {ws : List String} (h : below.Binds ws) (e : Edge) :
    (Body.edge e below nil).Binds (e.target :: ws) :=
  .edge (by simp [edges]) h (fun _ => id) fun _ => Or.inr

theorem Binds.in_alternative {body : Body} {ws : List String} (h : body.Binds ws) (isSlot : Bool) :
    (Body.alternative isSlot body nil).Binds ws :=
  .alternative (by simp [alternatives]) h (fun _ => id) fun _ => Or.inr

/-- Every way through the first pattern is also one through the second. -/
structure Covers (B M : Body) : Prop where
  plain : ∀ v ∈ B.plainTargets, v ∈ M.plainTargets
  edges : ∀ e below, (e, below) ∈ B.edges →
    ∃ below', (e, below') ∈ M.edges ∧ ∀ vs, Binds below vs → Binds below' vs
  alternatives : ∀ body ∈ B.alternatives,
    ∃ body' ∈ M.alternatives, ∀ vs, Binds body vs → Binds body' vs

theorem Covers.binds {B M : Body} (h : B.Covers M) {vs : List String} (hb : B.Binds vs) :
    M.Binds vs := by
  cases hb with
  | plain hvs => exact .plain fun v hv => h.plain v (hvs v hv)
  | edge he hbelow hsub hvs =>
      obtain ⟨below', he', hle⟩ := h.edges _ _ he
      exact .edge he' (hle _ hbelow) hsub fun v hv => (hvs v hv).imp (h.plain v) id
  | alternative hbody hws hsub hvs =>
      obtain ⟨body', hb', hle⟩ := h.alternatives _ hbody
      exact .alternative hb' (hle _ hws) hsub fun v hv => (hvs v hv).imp (h.plain v) id

theorem Covers.of_lists {B M : Body} (hplain : ∀ v ∈ B.plainTargets, v ∈ M.plainTargets)
    (hedges : ∀ x ∈ B.edges, x ∈ M.edges) (halternatives : ∀ x ∈ B.alternatives, x ∈ M.alternatives) :
    B.Covers M where
  plain := hplain
  edges _ below h := ⟨below, hedges _ h, fun _ => id⟩
  alternatives body h := ⟨body, halternatives _ h, fun _ => id⟩

theorem Covers.refl (B : Body) : B.Covers B :=
  .of_lists (fun _ => id) (fun _ => id) (fun _ => id)

theorem Covers.trans {B M N : Body} (h : B.Covers M) (h' : M.Covers N) : B.Covers N where
  plain v hv := h'.plain v (h.plain v hv)
  edges e below he := by
    obtain ⟨below', he', hle⟩ := h.edges e below he
    obtain ⟨below'', he'', hle'⟩ := h'.edges e below' he'
    exact ⟨below'', he'', fun vs hvs => hle' vs (hle vs hvs)⟩
  alternatives body hb := by
    obtain ⟨body', hb', hle⟩ := h.alternatives body hb
    obtain ⟨body'', hb'', hle'⟩ := h'.alternatives body' hb'
    exact ⟨body'', hb'', fun vs hvs => hle' vs (hle vs hvs)⟩

section Lists

variable (B C : Body)

theorem plainTargets_append : (B.append C).plainTargets = B.plainTargets ++ C.plainTargets := by
  induction B with
  | nil => rfl
  | leaf predicate term rest ih => exact ih
  | edge e below rest _ ih =>
      cases h : e.isOptional <;> simp [append, plainTargets, h, ih]
  | alternative isSlot body rest _ ih => exact ih
  | conjunct own body rest _ ih => exact ih

theorem edges_append : (B.append C).edges = B.edges ++ C.edges := by
  induction B with
  | nil => rfl
  | leaf predicate term rest ih => exact ih
  | edge e below rest _ ih => simp [append, edges, ih]
  | alternative isSlot body rest _ ih => exact ih
  | conjunct own body rest _ ih => exact ih

theorem alternatives_append : (B.append C).alternatives = B.alternatives ++ C.alternatives := by
  induction B with
  | nil => rfl
  | leaf predicate term rest ih => exact ih
  | edge e below rest _ ih => exact ih
  | alternative isSlot body rest _ ih => simp [append, alternatives, ih]
  | conjunct own body rest _ ih => exact ih

theorem conjuncts_append : (B.append C).conjuncts = B.conjuncts ++ C.conjuncts := by
  induction B with
  | nil => rfl
  | leaf predicate term rest ih => exact ih
  | edge e below rest _ ih => exact ih
  | alternative isSlot body rest _ ih => exact ih
  | conjunct own body rest _ ih => exact congrArg _ ih

theorem covers_append_left : B.Covers (B.append C) :=
  .of_lists (by simp +contextual [plainTargets_append]) (by simp +contextual [edges_append])
    (by simp +contextual [alternatives_append])

theorem alternatives_addLeaf (predicate term : String) :
    (B.addLeaf predicate term).alternatives = B.alternatives := by
  induction B with
  | nil => rfl
  | leaf p t rest ih =>
      unfold addLeaf
      split
      · rfl
      · exact ih
  | edge e below rest _ ih => exact ih
  | alternative isSlot body rest _ ih => simp [addLeaf, alternatives, ih]
  | conjunct own body rest _ ih => exact ih

theorem covers_addLeaf (predicate term : String) : B.Covers (B.addLeaf predicate term) := by
  have h : (B.addLeaf predicate term).plainTargets = B.plainTargets ∧
      (B.addLeaf predicate term).edges = B.edges := by
    induction B with
    | nil => exact ⟨rfl, rfl⟩
    | leaf p t rest ih =>
        unfold addLeaf
        split
        · exact ⟨rfl, rfl⟩
        · exact ih
    | edge e below rest _ ih => simp [addLeaf, plainTargets, edges, ih]
    | alternative isSlot body rest _ ih => exact ih
    | conjunct own body rest _ ih => exact ih
  have ha := alternatives_addLeaf B predicate term
  exact .of_lists (fun v hv => h.1 ▸ hv) (fun x hx => h.2 ▸ hx) (fun x hx => ha ▸ hx)

end Lists

theorem alternatives_updateEdge (B : Body) (e : Edge) (f : Body → Body) :
    (B.updateEdge e f).alternatives = B.alternatives := by
  induction B with
  | nil => rfl
  | leaf p t rest ih => exact ih
  | edge e' below rest _ ih =>
      unfold updateEdge
      split
      · rfl
      · exact ih
  | alternative isSlot body rest _ ih => simp [updateEdge, alternatives, ih]
  | conjunct own body rest _ ih => exact ih

theorem plainTargets_subset_updateEdge (B : Body) (e : Edge) (f : Body → Body) :
    ∀ v ∈ B.plainTargets, v ∈ (B.updateEdge e f).plainTargets := by
  induction B with
  | nil => simp [plainTargets]
  | leaf p t rest ih => exact ih
  | edge e' below rest _ ih =>
      unfold updateEdge
      split
      · simp [plainTargets]
      · cases h : e'.isOptional with
        | true => simpa [plainTargets, h] using ih
        | false =>
            intro v hv
            simp only [plainTargets, h, Bool.false_eq_true, if_false, List.mem_cons] at hv ⊢
            exact hv.imp id (ih v)
  | alternative isSlot body rest _ ih => exact ih
  | conjunct own body rest _ ih => exact ih

theorem mem_edges_updateEdge (B : Body) (e : Edge) (f : Body → Body) :
    ∃ there, (e, f there) ∈ (B.updateEdge e f).edges := by
  induction B with
  | nil => exact ⟨nil, List.mem_cons_self⟩
  | leaf p t rest ih => exact ih
  | edge e' below rest _ ih =>
      unfold updateEdge
      split
      · next h => exact ⟨below, by simp [edges, h]⟩
      · obtain ⟨there, h⟩ := ih
        exact ⟨there, List.mem_cons_of_mem _ h⟩
  | alternative isSlot body rest _ ih => exact ih
  | conjunct own body rest _ ih => exact ih

theorem mem_plainTargets_of_mem_edges {B below : Body} {e : Edge} (h : (e, below) ∈ B.edges)
    (he : e.isOptional = false) : e.target ∈ B.plainTargets := by
  induction B with
  | nil => simp [edges] at h
  | leaf p t rest ih => exact ih h
  | edge e' below' rest _ ih =>
      simp only [edges, List.mem_cons, Prod.mk.injEq] at h
      obtain ⟨rfl, -⟩ | h := h
      · simp [plainTargets, he]
      · have := ih h
        unfold plainTargets
        split
        · exact this
        · exact List.mem_cons_of_mem _ this
  | alternative isSlot body rest _ ih => exact ih h
  | conjunct own body rest _ ih => exact ih h

theorem covers_updateEdge (B : Body) (e : Edge) {f : Body → Body} (hf : ∀ there, Covers there (f there)) :
    B.Covers (B.updateEdge e f) where
  plain := plainTargets_subset_updateEdge B e f
  edges e' below h := by
    induction B with
    | nil => simp [Body.edges] at h
    | leaf p t rest ih => exact ih h
    | edge e'' below'' rest _ ih =>
        simp only [Body.edges, List.mem_cons, Prod.mk.injEq] at h
        unfold updateEdge
        split
        · obtain ⟨rfl, rfl⟩ | h := h
          · exact ⟨f below, List.mem_cons_self, fun vs => (hf below).binds⟩
          · exact ⟨below, List.mem_cons_of_mem _ h, fun _ => id⟩
        · obtain ⟨rfl, rfl⟩ | h := h
          · exact ⟨below, List.mem_cons_self, fun _ => id⟩
          · obtain ⟨below', h', hle⟩ := ih h
            exact ⟨below', List.mem_cons_of_mem _ h', hle⟩
    | alternative isSlot body rest _ ih => exact ih h
    | conjunct own body rest _ ih => exact ih h
  alternatives body h := ⟨body, by rwa [alternatives_updateEdge], fun _ => id⟩

theorem edges_updateSlot (B : Body) (f : Body → Body) :
    (B.updateSlot f).edges = B.edges ∧ (B.updateSlot f).plainTargets = B.plainTargets := by
  induction B with
  | nil => exact ⟨rfl, rfl⟩
  | leaf p t rest ih => exact ih
  | edge e below rest _ ih => simp [updateSlot, edges, plainTargets, ih]
  | alternative isSlot body rest _ ih =>
      cases isSlot with
      | true => exact ⟨rfl, rfl⟩
      | false => exact ih
  | conjunct own body rest _ ih => exact ih

theorem mem_alternatives_updateSlot (B : Body) (f : Body → Body) :
    ∃ there, f there ∈ (B.updateSlot f).alternatives := by
  induction B with
  | nil => exact ⟨nil, List.mem_cons_self⟩
  | leaf p t rest ih => exact ih
  | edge e below rest _ ih => exact ih
  | alternative isSlot body rest _ ih =>
      cases isSlot with
      | true => exact ⟨body, List.mem_cons_self⟩
      | false =>
          obtain ⟨there, h⟩ := ih
          exact ⟨there, List.mem_cons_of_mem _ h⟩
  | conjunct own body rest _ ih => exact ih

theorem covers_updateSlot (B : Body) {f : Body → Body} (hf : ∀ there, Covers there (f there)) :
    B.Covers (B.updateSlot f) where
  plain v hv := by rwa [(edges_updateSlot B f).2]
  edges e below h := ⟨below, by rwa [(edges_updateSlot B f).1], fun _ => id⟩
  alternatives body h := by
    induction B with
    | nil => simp [Body.alternatives] at h
    | leaf p t rest ih => exact ih h
    | edge e below rest _ ih => exact ih h
    | alternative isSlot body' rest _ ih =>
        simp only [Body.alternatives, List.mem_cons] at h
        cases isSlot with
        | true =>
            obtain rfl | h := h
            · exact ⟨f body, List.mem_cons_self, fun vs => (hf body).binds⟩
            · exact ⟨body, List.mem_cons_of_mem _ h, fun _ => id⟩
        | false =>
            obtain rfl | h := h
            · exact ⟨body, List.mem_cons_self, fun _ => id⟩
            · obtain ⟨body'', h', hle⟩ := ih h
              exact ⟨body'', List.mem_cons_of_mem _ h', hle⟩
    | conjunct own body' rest _ ih => exact ih h

theorem covers_merge_left (B C : Body) : B.Covers (B.merge C) := by
  induction C generalizing B with
  | nil => exact .refl B
  | leaf predicate term rest ih => exact (covers_addLeaf B predicate term).trans (ih _)
  | edge e below rest ihBelow ih =>
      exact (covers_updateEdge B e fun there => ihBelow there).trans (ih _)
  | alternative isSlot body rest ihBody ih =>
      cases isSlot with
      | true => exact (covers_updateSlot B fun there => ihBody there).trans (ih _)
      | false => exact (covers_append_left B _).trans (ih _)
  | conjunct own body rest _ ih => exact (covers_append_left B _).trans (ih _)

theorem covers_merge_right (B C : Body) : C.Covers (B.merge C) := by
  induction C generalizing B with
  | nil => exact .of_lists (by simp [plainTargets]) (by simp [edges]) (by simp [alternatives])
  | leaf predicate term rest ih =>
      have h := ih (B.addLeaf predicate term)
      exact ⟨h.plain, h.edges, h.alternatives⟩
  | edge e below rest ihBelow ih =>
      have hrest := ih (B.updateEdge e fun there => there.merge below)
      have hhead := covers_merge_left (B.updateEdge e fun there => there.merge below) rest
      obtain ⟨there, hthere⟩ := mem_edges_updateEdge B e fun there => there.merge below
      obtain ⟨below', hbelow', hle⟩ := hhead.edges _ _ hthere
      refine ⟨?_, ?_, hrest.alternatives⟩
      · intro v hv
        unfold plainTargets at hv
        split at hv
        · exact hrest.plain v hv
        · next he =>
            obtain rfl | hv := List.mem_cons.mp hv
            · exact mem_plainTargets_of_mem_edges hbelow' (by simpa using he)
            · exact hrest.plain v hv
      · intro e' b hb
        obtain ⟨rfl, rfl⟩ | hb := by simpa only [edges, List.mem_cons, Prod.mk.injEq] using hb
        · exact ⟨below', hbelow', fun vs hvs => hle vs ((ihBelow there).binds hvs)⟩
        · exact hrest.edges e' b hb
  | alternative isSlot body rest ihBody ih =>
      cases isSlot with
      | true =>
          have hrest := ih (B.updateSlot fun there => there.merge body)
          have hhead := covers_merge_left (B.updateSlot fun there => there.merge body) rest
          obtain ⟨there, hthere⟩ := mem_alternatives_updateSlot B fun there => there.merge body
          obtain ⟨body', hbody', hle⟩ := hhead.alternatives _ hthere
          refine ⟨hrest.plain, hrest.edges, ?_⟩
          intro b hb
          obtain rfl | hb := List.mem_cons.mp hb
          · exact ⟨body', hbody', fun vs hvs => hle vs ((ihBody there).binds hvs)⟩
          · exact hrest.alternatives b hb
      | false =>
          have hrest := ih (B.append (alternative false body nil))
          have hhead := covers_merge_left (B.append (alternative false body nil)) rest
          refine ⟨hrest.plain, hrest.edges, ?_⟩
          intro b hb
          obtain rfl | hb := List.mem_cons.mp hb
          · exact hhead.alternatives b (by simp [alternatives_append, alternatives])
          · exact hrest.alternatives b hb
  | conjunct own body rest _ ih =>
      have h := ih (B.append (conjunct own body nil))
      exact ⟨h.plain, h.edges, h.alternatives⟩

end EntityGraph.Body
