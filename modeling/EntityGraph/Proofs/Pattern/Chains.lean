import EntityGraph.Proofs.Pattern.Faithful

/-!
# Chains of edges

A chain in a pattern is a sequence of edges, each hanging below the one before it. It starts at the root of
the pattern, or at that of a conjunct in it; alternatives on the way do not matter. The chains of two patterns
at one root are chains of the merged pattern, and every chain is written as a chain of triples.
-/
namespace EntityGraph

open Sparql (Triple)

/-- The triples that a sequence of edges is written as, if it starts at a term. -/
def Edge.triples : String → List Edge → List Triple
  | _, [] => []
  | start, e :: es => e.triple start :: Edge.triples e.target es

namespace Body

/-- In the pattern, which hangs at `root`, the edges hang below each other, the first one at `start`. -/
def Chain : Body → String → String → List Edge → Prop
  | nil, root, start, es => start = root ∧ es = []
  | leaf _ _ rest, root, start, es => rest.Chain root start es
  | edge e below rest, root, start, es =>
    (start = root ∧ ∃ es', es = e :: es' ∧ below.Chain e.target e.target es') ∨ rest.Chain root start es
  | alternative _ inner rest, root, start, es => inner.Chain root start es ∨ rest.Chain root start es
  | conjunct own inner rest, root, start, es => inner.Chain own start es ∨ rest.Chain root start es

variable {B C : Body} {root start : String} {es : List Edge} {e : Edge} {f : Body → Body}

theorem chain_nil (B : Body) (root : String) : B.Chain root root [] := by
  induction B with
  | nil => exact ⟨rfl, rfl⟩
  | leaf predicate term rest ih => exact ih
  | edge e below rest _ ih => exact Or.inr ih
  | alternative isSlot inner rest _ ih => exact Or.inr ih
  | conjunct own inner rest _ ih => exact Or.inr ih

theorem Chain.append_left (h : B.Chain root start es) (C : Body) : (B.append C).Chain root start es := by
  induction B with
  | nil =>
      obtain ⟨rfl, rfl⟩ := h
      exact chain_nil C start
  | leaf predicate term rest ih => exact ih h
  | edge e below rest _ ih => exact h.imp_right ih
  | alternative isSlot inner rest _ ih => exact h.imp_right ih
  | conjunct own inner rest _ ih => exact h.imp_right ih

theorem Chain.append_right (B : Body) (h : C.Chain root start es) : (B.append C).Chain root start es := by
  induction B with
  | nil => exact h
  | leaf predicate term rest ih => exact ih
  | edge e below rest _ ih => exact Or.inr ih
  | alternative isSlot inner rest _ ih => exact Or.inr ih
  | conjunct own inner rest _ ih => exact Or.inr ih

theorem Chain.addLeaf (h : B.Chain root start es) (predicate term : String) :
    (B.addLeaf predicate term).Chain root start es := by
  induction B with
  | nil => exact h
  | leaf p t rest ih =>
      unfold Body.addLeaf
      split
      · exact h
      · exact ih h
  | edge e below rest _ ih => exact h.imp_right ih
  | alternative isSlot inner rest _ ih => exact h.imp_right ih
  | conjunct own inner rest _ ih => exact h.imp_right ih

theorem Chain.updateEdge (h : B.Chain root start es)
    (hf : ∀ {there : Body} {start es}, there.Chain e.target start es → (f there).Chain e.target start es) :
    (B.updateEdge e f).Chain root start es := by
  induction B with
  | nil =>
      obtain ⟨rfl, rfl⟩ := h
      exact chain_nil _ start
  | leaf p t rest ih => exact ih h
  | edge e' below rest _ ih =>
      unfold Body.updateEdge
      split
      · next heq =>
          subst heq
          obtain ⟨hstart, es', hes, hbelow⟩ | h := h
          · exact Or.inl ⟨hstart, es', hes, hf hbelow⟩
          · exact Or.inr h
      · exact h.imp_right ih
  | alternative isSlot inner rest _ ih => exact h.imp_right ih
  | conjunct own inner rest _ ih => exact h.imp_right ih

theorem chain_updateEdge_self (B : Body) (h : ∀ there : Body, (f there).Chain e.target e.target es) :
    (B.updateEdge e f).Chain root root (e :: es) := by
  induction B with
  | nil => exact Or.inl ⟨rfl, es, rfl, h nil⟩
  | leaf p t rest ih => exact ih
  | edge e' below rest _ ih =>
      unfold Body.updateEdge
      split
      · next heq =>
          subst heq
          exact Or.inl ⟨rfl, es, rfl, h below⟩
      · exact Or.inr ih
  | alternative isSlot inner rest _ ih => exact Or.inr ih
  | conjunct own inner rest _ ih => exact Or.inr ih

theorem Chain.updateSlot (h : B.Chain root start es)
    (hf : ∀ {there : Body} {start es}, there.Chain root start es → (f there).Chain root start es) :
    (B.updateSlot f).Chain root start es := by
  induction B with
  | nil =>
      obtain ⟨rfl, rfl⟩ := h
      exact chain_nil _ start
  | leaf p t rest ih => exact ih h
  | edge e below rest _ ih => exact h.imp_right ih
  | alternative isSlot inner rest _ ih =>
      cases isSlot with
      | true => exact h.imp_left hf
      | false => exact h.imp_right ih
  | conjunct own inner rest _ ih => exact h.imp_right ih

theorem chain_updateSlot_self (B : Body) (h : ∀ there : Body, (f there).Chain root start es) :
    (B.updateSlot f).Chain root start es := by
  induction B with
  | nil => exact Or.inl (h nil)
  | leaf p t rest ih => exact ih
  | edge e below rest _ ih => exact Or.inr ih
  | alternative isSlot inner rest _ ih =>
      cases isSlot with
      | true => exact Or.inl (h inner)
      | false => exact Or.inr ih
  | conjunct own inner rest _ ih => exact Or.inr ih

theorem Chain.merge_left (h : B.Chain root start es) (C : Body) : (B.merge C).Chain root start es := by
  induction C generalizing B root start es with
  | nil => exact h
  | leaf predicate term rest ih => exact ih (h.addLeaf predicate term)
  | edge e below rest ihBelow ih => exact ih (h.updateEdge ihBelow)
  | alternative isSlot inner rest ihInner ih =>
      cases isSlot with
      | true => exact ih (h.updateSlot ihInner)
      | false => exact ih (h.append_left _)
  | conjunct own inner rest _ ih => exact ih (h.append_left _)

theorem Chain.merge_right (B : Body) (h : C.Chain root start es) : (B.merge C).Chain root start es := by
  induction C generalizing B root start es with
  | nil =>
      obtain ⟨rfl, rfl⟩ := h
      exact chain_nil B start
  | leaf predicate term rest ih => exact ih _ h
  | edge e below rest ihBelow ih =>
      obtain ⟨rfl, es', rfl, hbelow⟩ | h := h
      · exact (chain_updateEdge_self B fun there => ihBelow there hbelow).merge_left rest
      · exact ih _ h
  | alternative isSlot inner rest ihInner ih =>
      cases isSlot with
      | true =>
          obtain h | h := h
          · exact (chain_updateSlot_self B fun there => ihInner there h).merge_left rest
          · exact ih _ h
      | false =>
          obtain h | h := h
          · exact (Chain.append_right (C := .alternative false inner .nil) B (Or.inl h)).merge_left rest
          · exact ih _ h
  | conjunct own inner rest _ ih =>
      obtain h | h := h
      · exact (Chain.append_right (C := .conjunct own inner .nil) B (Or.inl h)).merge_left rest
      · exact ih _ h

theorem Chain.mem_triples {t : Triple} (h : B.Chain root start es) (ht : t ∈ Edge.triples start es) :
    t ∈ B.triples root := by
  induction B generalizing root start es with
  | nil =>
      obtain ⟨-, rfl⟩ := h
      simp [Edge.triples] at ht
  | leaf predicate term rest ih => exact List.mem_cons_of_mem _ (ih h ht)
  | edge e below rest ihBelow ih =>
      obtain ⟨rfl, es', rfl, hbelow⟩ | h := h
      · obtain rfl | ht := List.mem_cons.mp ht
        · exact List.mem_cons_self
        · exact List.mem_cons_of_mem _ (List.mem_append_left _ (ihBelow hbelow ht))
      · exact List.mem_cons_of_mem _ (List.mem_append_right _ (ih h ht))
  | alternative isSlot inner rest ihInner ih =>
      obtain h | h := h
      · exact List.mem_append_left _ (ihInner h ht)
      · exact List.mem_append_right _ (ih h ht)
  | conjunct own inner rest ihInner ih =>
      obtain h | h := h
      · exact List.mem_append_left _ (ihInner h ht)
      · exact List.mem_append_right _ (ih h ht)

end Body

theorem Pattern.mem_triples_of_chain {p : Pattern} {start : String} {es : List Edge}
    (h : p.body.Chain p.root start es) : ∀ t ∈ Edge.triples start es, t ∈ p.group.triples :=
  fun _ ht => mem_triples_group.mpr (h.mem_triples ht)

end EntityGraph
