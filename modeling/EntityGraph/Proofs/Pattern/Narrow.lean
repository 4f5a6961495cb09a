import EntityGraph.Proofs.Pattern.Parts

/-!
# Narrow patterns

A pattern is narrow when on every level its alternatives are one slot at most. Merging keeps patterns
narrow, and the merged pattern has the targets of both.
-/
namespace EntityGraph.Body

/-- On every level there is one slot at most, and no other alternative. -/
@[grind =] def Narrow : Body → Prop
  | nil => True
  | leaf _ _ rest => rest.Narrow
  | edge _ below rest => below.Narrow ∧ rest.Narrow
  | alternative isSlot body rest =>
    isSlot = true ∧ body.Narrow ∧ rest.alternatives = [] ∧ rest.Narrow
  | conjunct _ body rest => body.Narrow ∧ rest.Narrow

@[grind =] def targets : Body → List String
  | nil => []
  | leaf _ _ rest => rest.targets
  | edge e below rest => e.target :: (below.targets ++ rest.targets)
  | alternative _ body rest => body.targets ++ rest.targets
  | conjunct _ body rest => body.targets ++ rest.targets

section Narrow

variable {B C : Body}

theorem Narrow.append (hB : B.Narrow) (hC : C.Narrow) (h : C.alternatives = []) :
    (B.append C).Narrow := by
  induction B with
  | nil => exact hC
  | leaf predicate term rest ih => exact ih hB
  | edge e below rest _ ih => exact ⟨hB.1, ih hB.2⟩
  | alternative isSlot body rest _ ih =>
      obtain ⟨hslot, hbody, hrest, hnarrow⟩ := hB
      exact ⟨hslot, hbody, by rw [alternatives_append, hrest, h]; rfl, ih hnarrow⟩
  | conjunct own body rest _ ih => exact ⟨hB.1, ih hB.2⟩

theorem Narrow.addLeaf (hB : B.Narrow) (predicate term : String) :
    (B.addLeaf predicate term).Narrow := by
  induction B with
  | nil => trivial
  | leaf p t rest ih =>
      unfold Body.addLeaf
      split
      · exact hB
      · exact ih hB
  | edge e below rest _ ih => exact ⟨hB.1, ih hB.2⟩
  | alternative isSlot body rest _ ih =>
      obtain ⟨hslot, hbody, hrest, hnarrow⟩ := hB
      exact ⟨hslot, hbody, by rw [alternatives_addLeaf, hrest], ih hnarrow⟩
  | conjunct own body rest _ ih => exact ⟨hB.1, ih hB.2⟩

theorem Narrow.updateEdge (hB : B.Narrow) (e : Edge) {f : Body → Body}
    (hf : ∀ there : Body, there.Narrow → (f there).Narrow) : (B.updateEdge e f).Narrow := by
  induction B with
  | nil => exact ⟨hf nil trivial, trivial⟩
  | leaf p t rest ih => exact ih hB
  | edge e' below rest _ ih =>
      unfold Body.updateEdge
      split
      · exact ⟨hf below hB.1, hB.2⟩
      · exact ⟨hB.1, ih hB.2⟩
  | alternative isSlot body rest _ ih =>
      obtain ⟨hslot, hbody, hrest, hnarrow⟩ := hB
      exact ⟨hslot, hbody, by rw [alternatives_updateEdge, hrest], ih hnarrow⟩
  | conjunct own body rest _ ih => exact ⟨hB.1, ih hB.2⟩

theorem Narrow.updateSlot (hB : B.Narrow) {f : Body → Body}
    (hf : ∀ there : Body, there.Narrow → (f there).Narrow) : (B.updateSlot f).Narrow := by
  induction B with
  | nil => exact ⟨rfl, hf nil trivial, rfl, trivial⟩
  | leaf p t rest ih => exact ih hB
  | edge e' below rest _ ih => exact ⟨hB.1, ih hB.2⟩
  | alternative isSlot body rest _ ih =>
      obtain ⟨rfl, hbody, hrest, hnarrow⟩ := hB
      exact ⟨rfl, hf body hbody, hrest, hnarrow⟩
  | conjunct own body rest _ ih => exact ⟨hB.1, ih hB.2⟩

theorem Narrow.merge (hB : B.Narrow) (hC : C.Narrow) : (B.merge C).Narrow := by
  induction C generalizing B with
  | nil => exact hB
  | leaf predicate term rest ih => exact ih (hB.addLeaf predicate term) hC
  | edge e below rest ihBelow ih => exact ih (hB.updateEdge e fun there h => ihBelow h hC.1) hC.2
  | alternative isSlot body rest ihBody ih =>
      obtain ⟨rfl, hbody, -, hrest⟩ := hC
      exact ih (hB.updateSlot fun there h => ihBody h hbody) hrest
  | conjunct own body rest _ ih => exact ih (hB.append ⟨hC.1, trivial⟩ rfl) hC.2

end Narrow

section Targets

variable {v : String}

theorem targets_append (B C : Body) : (B.append C).targets = B.targets ++ C.targets := by
  induction B with
  | nil => rfl
  | leaf predicate term rest ih => exact ih
  | edge e below rest _ ih => simp [append, targets, ih]
  | alternative isSlot body rest _ ih => simp [append, targets, ih]
  | conjunct own body rest _ ih => simp [append, targets, ih]

theorem targets_addLeaf (B : Body) (predicate term : String) :
    (B.addLeaf predicate term).targets = B.targets := by
  induction B with
  | nil => rfl
  | leaf p t rest ih =>
      unfold addLeaf
      split
      · rfl
      · exact ih
  | edge e below rest _ ih => simp [addLeaf, targets, ih]
  | alternative isSlot body rest _ ih => simp [addLeaf, targets, ih]
  | conjunct own body rest _ ih => simp [addLeaf, targets, ih]

theorem mem_targets_updateEdge {B : Body} {e : Edge} {f : Body → Body}
    (hf : ∀ there : Body, v ∈ there.targets → v ∈ (f there).targets) (h : v ∈ B.targets) :
    v ∈ (B.updateEdge e f).targets := by
  induction B with
  | nil => simp [targets] at h
  | leaf p t rest ih => exact ih h
  | edge e' below rest _ ih =>
      unfold updateEdge
      simp only [targets, List.mem_cons, List.mem_append] at h
      split
      · simp only [targets, List.mem_cons, List.mem_append]
        exact h.imp id (Or.imp (hf below) id)
      · simp only [targets, List.mem_cons, List.mem_append]
        exact h.imp id (Or.imp id ih)
  | alternative isSlot body rest _ ih =>
      simp only [updateEdge, targets, List.mem_append] at h ⊢
      exact h.imp id ih
  | conjunct own body rest _ ih =>
      simp only [updateEdge, targets, List.mem_append] at h ⊢
      exact h.imp id ih

theorem mem_targets_updateSlot {B : Body} {f : Body → Body}
    (hf : ∀ there : Body, v ∈ there.targets → v ∈ (f there).targets) (h : v ∈ B.targets) :
    v ∈ (B.updateSlot f).targets := by
  induction B with
  | nil => simp [targets] at h
  | leaf p t rest ih => exact ih h
  | edge e' below rest _ ih =>
      simp only [updateSlot, targets, List.mem_cons, List.mem_append] at h ⊢
      exact h.imp id (Or.imp id ih)
  | alternative isSlot body rest _ ih =>
      cases isSlot <;> simp only [updateSlot, targets, List.mem_append] at h ⊢
      · exact h.imp id ih
      · exact h.imp (hf body) id
  | conjunct own body rest _ ih =>
      simp only [updateSlot, targets, List.mem_append] at h ⊢
      exact h.imp id ih

theorem mem_targets_of_mem_edges {B below : Body} {e : Edge} (h : (e, below) ∈ B.edges)
    (hv : v = e.target ∨ v ∈ below.targets) : v ∈ B.targets := by
  induction B with
  | nil => simp [edges] at h
  | leaf p t rest ih => exact ih h
  | edge e' below' rest _ ih =>
      simp only [targets, List.mem_cons, List.mem_append]
      obtain ⟨rfl, rfl⟩ | h := by simpa only [edges, List.mem_cons, Prod.mk.injEq] using h
      · exact hv.imp id Or.inl
      · exact Or.inr (Or.inr (ih h))
  | alternative isSlot body rest _ ih => exact List.mem_append_right _ (ih h)
  | conjunct own body rest _ ih => exact List.mem_append_right _ (ih h)

theorem mem_targets_of_mem_alternatives {B body : Body} (h : body ∈ B.alternatives)
    (hv : v ∈ body.targets) : v ∈ B.targets := by
  induction B with
  | nil => simp [alternatives] at h
  | leaf p t rest ih => exact ih h
  | edge e' below' rest _ ih => exact List.mem_cons_of_mem _ (List.mem_append_right _ (ih h))
  | alternative isSlot body' rest _ ih =>
      obtain rfl | h := List.mem_cons.mp h
      · exact List.mem_append_left _ hv
      · exact List.mem_append_right _ (ih h)
  | conjunct own body' rest _ ih => exact List.mem_append_right _ (ih h)

theorem mem_targets_merge_left {B : Body} (C : Body) (h : v ∈ B.targets) : v ∈ (B.merge C).targets := by
  induction C generalizing B with
  | nil => exact h
  | leaf predicate term rest ih => exact ih (by rwa [targets_addLeaf])
  | edge e below rest ihBelow ih => exact ih (mem_targets_updateEdge (fun there => ihBelow) h)
  | alternative isSlot body rest ihBody ih =>
      cases isSlot with
      | true => exact ih (mem_targets_updateSlot (fun there => ihBody) h)
      | false => exact ih (by rw [targets_append]; exact List.mem_append_left _ h)
  | conjunct own body rest _ ih => exact ih (by rw [targets_append]; exact List.mem_append_left _ h)

theorem mem_targets_merge_right (B : Body) {C : Body} (h : v ∈ C.targets) : v ∈ (B.merge C).targets := by
  induction C generalizing B with
  | nil => simp [targets] at h
  | leaf predicate term rest ih => exact ih _ h
  | edge e below rest ihBelow ih =>
      obtain ⟨there, hthere⟩ := mem_edges_updateEdge B e fun there => there.merge below
      simp only [targets, List.mem_cons, List.mem_append] at h
      simp only [merge]
      obtain h | h | h := h
      · exact mem_targets_merge_left rest (mem_targets_of_mem_edges hthere (Or.inl h))
      · exact mem_targets_merge_left rest (mem_targets_of_mem_edges hthere (Or.inr (ihBelow there h)))
      · exact ih _ h
  | alternative isSlot body rest ihBody ih =>
      simp only [targets, List.mem_append] at h
      cases isSlot with
      | true =>
          obtain ⟨there, hthere⟩ := mem_alternatives_updateSlot B fun there => there.merge body
          simp only [merge]
          obtain h | h := h
          · exact mem_targets_merge_left rest (mem_targets_of_mem_alternatives hthere (ihBody there h))
          · exact ih _ h
      | false =>
          simp only [merge]
          obtain h | h := h
          · refine mem_targets_merge_left rest ?_
            rw [targets_append]
            exact List.mem_append_right _ (by simpa [targets] using h)
          · exact ih _ h
  | conjunct own body rest _ ih =>
      simp only [targets, List.mem_append] at h
      simp only [merge]
      obtain h | h := h
      · refine mem_targets_merge_left rest ?_
        rw [targets_append]
        exact List.mem_append_right _ (by simpa [targets] using h)
      · exact ih _ h

end Targets
end EntityGraph.Body
