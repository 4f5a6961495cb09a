import EntityGraph.Pattern.Construction
import EntityGraph.Proofs.Pattern.Shared

/-!
# Merging as a monoid

Where a pattern has a leaf, an edge or a slot already, it can be changed before or after others are merged
into the pattern. So merging is associative, as long as the patterns are neat: on every level no leaf and no
edge occurs twice, and there is one slot at most. The pattern without parts is neutral on both sides.

Whatever is built is neat, and building goes on where it was left: a construction that starts from a pattern
gives the merge of the pattern with what the construction builds from nothing.
-/
namespace EntityGraph

namespace Body

variable {A B C below : Body} {e e' : Edge} {f g : Body → Body} {predicate term p t : String}

@[grind =] def Sparse : Body → Prop
  | nil => True
  | leaf predicate term rest => (predicate, term) ∉ rest.leaves ∧ rest.Sparse
  | edge _ below rest => below.Sparse ∧ rest.Sparse
  | alternative _ body rest => body.Sparse ∧ rest.Sparse
  | conjunct _ body rest => body.Sparse ∧ rest.Sparse

/-- On every level no leaf and no edge occurs twice, and there is one slot at most. -/
structure Neat (B : Body) : Prop where
  tidy : B.Tidy
  sparse : B.Sparse

theorem leaves_addLeaf_subset : ∀ x ∈ (B.addLeaf predicate term).leaves, x = (predicate, term) ∨
    x ∈ B.leaves := by
  intro x hx
  induction B with
  | nil => exact Or.inl (List.mem_singleton.mp hx)
  | leaf p t rest ih =>
      unfold addLeaf at hx
      split at hx
      · exact Or.inr hx
      · obtain rfl | hx := List.mem_cons.mp hx
        · exact Or.inr List.mem_cons_self
        · exact (ih hx).imp_right (List.mem_cons_of_mem _)
  | edge e below rest _ ih => exact ih hx
  | alternative isSlot body rest _ ih => exact ih hx
  | conjunct own body rest _ ih => exact ih hx

theorem leaves_updateEdge (B : Body) (e : Edge) (f : Body → Body) : (B.updateEdge e f).leaves = B.leaves := by
  induction B with
  | nil => rfl
  | leaf p t rest ih => exact congrArg (List.cons (p, t)) ih
  | edge e' below rest _ ih =>
      unfold updateEdge
      split
      · rfl
      · exact ih
  | alternative isSlot body rest _ ih => exact ih
  | conjunct own body rest _ ih => exact ih

theorem leaves_updateSlot (B : Body) (f : Body → Body) : (B.updateSlot f).leaves = B.leaves := by
  induction B with
  | nil => rfl
  | leaf p t rest ih => exact congrArg (List.cons (p, t)) ih
  | edge e' below rest _ ih => exact ih
  | alternative isSlot body rest _ ih =>
      cases isSlot with
      | true => rfl
      | false => exact ih
  | conjunct own body rest _ ih => exact ih

theorem Sparse.append (hB : B.Sparse) (hC : C.Sparse) (h : ∀ x ∈ B.leaves, x ∉ C.leaves) :
    (B.append C).Sparse := by
  induction B with
  | nil => exact hC
  | leaf p t rest ih =>
      obtain ⟨hhere, hrest⟩ := List.forall_mem_cons.mp h
      exact ⟨by simpa [leaves_append] using ⟨hB.1, hhere⟩, ih hB.2 hrest⟩
  | edge e below rest _ ih => exact ⟨hB.1, ih hB.2 h⟩
  | alternative isSlot body rest _ ih => exact ⟨hB.1, ih hB.2 h⟩
  | conjunct own body rest _ ih => exact ⟨hB.1, ih hB.2 h⟩

theorem Sparse.addLeaf (hB : B.Sparse) (predicate term : String) : (B.addLeaf predicate term).Sparse := by
  induction B with
  | nil => exact ⟨by simp [leaves], trivial⟩
  | leaf p t rest ih =>
      unfold Body.addLeaf
      split
      · exact hB
      · next hne =>
          refine ⟨fun hmem => ?_, ih hB.2⟩
          obtain heq | hmem := leaves_addLeaf_subset _ hmem
          · exact hne (Prod.mk.inj heq)
          · exact hB.1 hmem
  | edge e below rest _ ih => exact ⟨hB.1, ih hB.2⟩
  | alternative isSlot body rest _ ih => exact ⟨hB.1, ih hB.2⟩
  | conjunct own body rest _ ih => exact ⟨hB.1, ih hB.2⟩

theorem Sparse.updateEdge (hB : B.Sparse) (e : Edge) (hf : ∀ there : Body, there.Sparse → (f there).Sparse) :
    (B.updateEdge e f).Sparse := by
  induction B with
  | nil => exact ⟨hf nil trivial, trivial⟩
  | leaf p t rest ih => exact ⟨by simpa only [leaves_updateEdge] using hB.1, ih hB.2⟩
  | edge e' below rest _ ih =>
      unfold Body.updateEdge
      split
      · exact ⟨hf below hB.1, hB.2⟩
      · exact ⟨hB.1, ih hB.2⟩
  | alternative isSlot body rest _ ih => exact ⟨hB.1, ih hB.2⟩
  | conjunct own body rest _ ih => exact ⟨hB.1, ih hB.2⟩

theorem Sparse.updateSlot (hB : B.Sparse) (hf : ∀ there : Body, there.Sparse → (f there).Sparse) :
    (B.updateSlot f).Sparse := by
  induction B with
  | nil => exact ⟨hf nil trivial, trivial⟩
  | leaf p t rest ih => exact ⟨by simpa only [leaves_updateSlot] using hB.1, ih hB.2⟩
  | edge e below rest _ ih => exact ⟨hB.1, ih hB.2⟩
  | alternative isSlot body rest _ ih =>
      cases isSlot with
      | true => exact ⟨hf body hB.1, hB.2⟩
      | false => exact ⟨hB.1, ih hB.2⟩
  | conjunct own body rest _ ih => exact ⟨hB.1, ih hB.2⟩

theorem Sparse.merge (hB : B.Sparse) (hC : C.Sparse) : (B.merge C).Sparse := by
  induction C generalizing B with
  | nil => exact hB
  | leaf predicate term rest ih => exact ih (hB.addLeaf predicate term) hC.2
  | edge e below rest ihBelow ih => exact ih (hB.updateEdge e fun there h => ihBelow h hC.1) hC.2
  | alternative isSlot body rest ihBody ih =>
      cases isSlot with
      | true => exact ih (hB.updateSlot fun there h => ihBody h hC.1) hC.2
      | false => exact ih (hB.append ⟨hC.1, trivial⟩ (by simp [leaves])) hC.2
  | conjunct own body rest _ ih => exact ih (hB.append ⟨hC.1, trivial⟩ (by simp [leaves])) hC.2

theorem Neat.merge (hB : B.Neat) (hC : C.Neat) : (B.merge C).Neat :=
  ⟨hB.tidy.merge hC.tidy, hB.sparse.merge hC.sparse⟩

-- A single part is neat.

theorem neat_nil : nil.Neat := ⟨trivial, trivial⟩

theorem neat_leaf (predicate term : String) : (leaf predicate term nil).Neat :=
  ⟨trivial, by simp [leaves], trivial⟩

theorem Neat.edge (h : below.Neat) (e : Edge) : (edge e below nil).Neat :=
  ⟨⟨by simp [edges], h.tidy, trivial⟩, h.sparse, trivial⟩

theorem Neat.alternative (h : below.Neat) (isSlot : Bool) : (alternative isSlot below nil).Neat :=
  ⟨⟨fun _ => rfl, h.tidy, trivial⟩, h.sparse, trivial⟩

theorem Neat.conjunct (h : below.Neat) (own : String) : (conjunct own below nil).Neat :=
  ⟨⟨h.tidy, trivial⟩, h.sparse, trivial⟩

theorem addLeaf_of_mem (h : (predicate, term) ∈ B.leaves) : B.addLeaf predicate term = B := by
  induction B with
  | nil => simp [leaves] at h
  | leaf p t rest ih =>
      unfold addLeaf
      split
      · rfl
      · next hne =>
          obtain heq | h := List.mem_cons.mp h
          · obtain ⟨rfl, rfl⟩ := Prod.mk.inj heq
            simp at hne
          · rw [ih h]
  | edge e below rest _ ih => rw [addLeaf, ih h]
  | alternative isSlot body rest _ ih => rw [addLeaf, ih h]
  | conjunct own body rest _ ih => rw [addLeaf, ih h]

theorem updateEdge_updateEdge (B : Body) (e : Edge) (f g : Body → Body) :
    (B.updateEdge e f).updateEdge e g = B.updateEdge e fun there => g (f there) := by
  induction B with
  | nil => simp [updateEdge]
  | leaf p t rest ih => simp [updateEdge, ih]
  | edge e' below rest _ ih => by_cases h : e' = e <;> simp [updateEdge, h, ih]
  | alternative isSlot body rest _ ih => simp [updateEdge, ih]
  | conjunct own body rest _ ih => simp [updateEdge, ih]

theorem updateSlot_updateSlot (B : Body) (f g : Body → Body) :
    (B.updateSlot f).updateSlot g = B.updateSlot fun there => g (f there) := by
  induction B with
  | nil => simp [updateSlot]
  | leaf p t rest ih => simp [updateSlot, ih]
  | edge e' below rest _ ih => simp [updateSlot, ih]
  | alternative isSlot body rest _ ih => cases isSlot <;> simp [updateSlot, ih]
  | conjunct own body rest _ ih => simp [updateSlot, ih]

section

variable (h : e ∈ B.edges.map Prod.fst)
include h

theorem updateEdge_addLeaf (g : Body → Body) :
    (B.addLeaf predicate term).updateEdge e g = (B.updateEdge e g).addLeaf predicate term := by
  induction B with
  | nil => simp [edges] at h
  | leaf p t rest ih => by_cases hp : p = predicate ∧ t = term <;> simp [addLeaf, updateEdge, hp, ih h]
  | edge e' below rest _ ih =>
      obtain rfl | h := List.mem_cons.mp h
      · simp [addLeaf, updateEdge]
      · by_cases he : e' = e <;> simp [addLeaf, updateEdge, he, ih h]
  | alternative isSlot body rest _ ih => simp [addLeaf, updateEdge, ih h]
  | conjunct own body rest _ ih => simp [addLeaf, updateEdge, ih h]

theorem updateEdge_append (g : Body → Body) : (B.append C).updateEdge e g = (B.updateEdge e g).append C := by
  induction B with
  | nil => simp [edges] at h
  | leaf p t rest ih => simp [append, updateEdge, ih h]
  | edge e' below rest _ ih =>
      obtain rfl | h := List.mem_cons.mp h
      · simp [append, updateEdge]
      · by_cases he : e' = e <;> simp [append, updateEdge, he, ih h]
  | alternative isSlot body rest _ ih => simp [append, updateEdge, ih h]
  | conjunct own body rest _ ih => simp [append, updateEdge, ih h]

theorem updateEdge_comm (hne : e' ≠ e) (f g : Body → Body) :
    (B.updateEdge e' f).updateEdge e g = (B.updateEdge e g).updateEdge e' f := by
  induction B with
  | nil => simp [edges] at h
  | leaf p t rest ih => simp [updateEdge, ih h]
  | edge e'' below rest _ ih =>
      obtain rfl | h := List.mem_cons.mp h
      · simp [updateEdge, hne.symm]
      · by_cases he : e'' = e
        · simp [updateEdge, he, hne.symm]
        · by_cases he' : e'' = e' <;> simp [updateEdge, he, he', hne, ih h]
  | alternative isSlot body rest _ ih => simp [updateEdge, ih h]
  | conjunct own body rest _ ih => simp [updateEdge, ih h]

theorem updateEdge_updateSlot (f g : Body → Body) :
    (B.updateSlot f).updateEdge e g = (B.updateEdge e g).updateSlot f := by
  induction B with
  | nil => simp [edges] at h
  | leaf p t rest ih => simp [updateSlot, updateEdge, ih h]
  | edge e' below rest _ ih =>
      obtain rfl | h := List.mem_cons.mp h
      · simp [updateSlot, updateEdge]
      · by_cases he : e' = e <;> simp [updateSlot, updateEdge, he, ih h]
  | alternative isSlot body rest _ ih => cases isSlot <;> simp [updateSlot, updateEdge, ih h]
  | conjunct own body rest _ ih => simp [updateSlot, updateEdge, ih h]

end

section

variable (h : B.slots ≠ [])
include h

theorem updateSlot_addLeaf (g : Body → Body) :
    (B.addLeaf predicate term).updateSlot g = (B.updateSlot g).addLeaf predicate term := by
  induction B with
  | nil => simp [slots] at h
  | leaf p t rest ih => by_cases hp : p = predicate ∧ t = term <;> simp [addLeaf, updateSlot, hp, ih h]
  | edge e below rest _ ih => simp [addLeaf, updateSlot, ih h]
  | alternative isSlot body rest _ ih =>
      cases isSlot with
      | true => simp [addLeaf, updateSlot]
      | false => simp [addLeaf, updateSlot, ih h]
  | conjunct own body rest _ ih => simp [addLeaf, updateSlot, ih h]

theorem updateSlot_append (g : Body → Body) : (B.append C).updateSlot g = (B.updateSlot g).append C := by
  induction B with
  | nil => simp [slots] at h
  | leaf p t rest ih => simp [append, updateSlot, ih h]
  | edge e below rest _ ih => simp [append, updateSlot, ih h]
  | alternative isSlot body rest _ ih =>
      cases isSlot with
      | true => simp [append, updateSlot]
      | false => simp [append, updateSlot, ih h]
  | conjunct own body rest _ ih => simp [append, updateSlot, ih h]

theorem updateSlot_updateEdge (e : Edge) (f g : Body → Body) :
    (B.updateEdge e f).updateSlot g = (B.updateSlot g).updateEdge e f := by
  induction B with
  | nil => simp [slots] at h
  | leaf p t rest ih => simp [updateSlot, updateEdge, ih h]
  | edge e' below rest _ ih => by_cases he : e' = e <;> simp [updateSlot, updateEdge, he, ih h]
  | alternative isSlot body rest _ ih =>
      cases isSlot with
      | true => simp [updateSlot, updateEdge]
      | false => simp [updateSlot, updateEdge, ih h]
  | conjunct own body rest _ ih => simp [updateSlot, updateEdge, ih h]

end

theorem mem_map_edges_of_within (h : B.Within C) (he : e ∈ B.edges.map Prod.fst) :
    e ∈ C.edges.map Prod.fst := by
  obtain ⟨x, hx, rfl⟩ := List.mem_map.mp he
  obtain ⟨there, hthere, -⟩ := (within_iff.mp h).2.1 x hx
  exact List.mem_map.mpr ⟨_, hthere, rfl⟩

theorem slots_ne_nil_of_within (h : B.Within C) (hB : B.slots ≠ []) : C.slots ≠ [] := by
  obtain ⟨S, hS⟩ := List.exists_mem_of_ne_nil _ hB
  obtain ⟨there, hthere, -⟩ := (within_iff.mp h).2.2.1 S hS
  exact List.ne_nil_of_mem hthere

theorem merge_updateEdge (h : e ∈ B.edges.map Prod.fst) (hC : ∀ x ∈ C.edges, x.1 ≠ e) :
    (B.merge C).updateEdge e g = (B.updateEdge e g).merge C := by
  induction C generalizing B with
  | nil => rfl
  | leaf predicate term rest ih =>
      rw [merge, merge, ih (mem_map_edges_of_within (within_addLeaf B predicate term) h) hC,
        updateEdge_addLeaf h]
  | edge e' below rest _ ih =>
      obtain ⟨hne, hrest⟩ := List.forall_mem_cons.mp hC
      have hmem := mem_map_edges_of_within (within_updateEdge B e' (within_merge_left · below)) h
      rw [merge, merge, ih hmem hrest, updateEdge_comm h hne]
  | alternative isSlot body rest _ ih =>
      cases isSlot with
      | true =>
          have hmem := mem_map_edges_of_within (within_updateSlot B (within_merge_left · body)) h
          rw [merge, merge, ih hmem hC, updateEdge_updateSlot h]
      | false =>
          rw [merge, merge, ih (mem_map_edges_of_within (within_append_left B _) h) hC, updateEdge_append h]
  | conjunct own body rest _ ih =>
      rw [merge, merge, ih (mem_map_edges_of_within (within_append_left B _) h) hC, updateEdge_append h]

theorem merge_updateSlot (h : B.slots ≠ []) (hC : C.slots = []) :
    (B.merge C).updateSlot g = (B.updateSlot g).merge C := by
  induction C generalizing B with
  | nil => rfl
  | leaf predicate term rest ih =>
      rw [merge, merge, ih (slots_ne_nil_of_within (within_addLeaf B predicate term) h) hC,
        updateSlot_addLeaf h]
  | edge e below rest _ ih =>
      have hslots := slots_ne_nil_of_within (within_updateEdge B e (within_merge_left · below)) h
      rw [merge, merge, ih hslots hC, updateSlot_updateEdge h]
  | alternative isSlot body rest _ ih =>
      cases isSlot with
      | true => simp [slots] at hC
      | false =>
          rw [merge, merge, ih (slots_ne_nil_of_within (within_append_left B _) h) hC, updateSlot_append h]
  | conjunct own body rest _ ih =>
      rw [merge, merge, ih (slots_ne_nil_of_within (within_append_left B _) h) hC, updateSlot_append h]

theorem append_assoc (B C D : Body) : (B.append C).append D = B.append (C.append D) := by
  induction B with
  | nil => rfl
  | leaf p t rest ih => simp [append, ih]
  | edge e below rest _ ih => simp [append, ih]
  | alternative isSlot body rest _ ih => simp [append, ih]
  | conjunct own body rest _ ih => simp [append, ih]

theorem append_nil (B : Body) : B.append nil = B := by
  induction B with
  | nil => rfl
  | leaf p t rest ih => simp [append, ih]
  | edge e below rest _ ih => simp [append, ih]
  | alternative isSlot body rest _ ih => simp [append, ih]
  | conjunct own body rest _ ih => simp [append, ih]

theorem addLeaf_of_not_mem (h : (predicate, term) ∉ B.leaves) :
    B.addLeaf predicate term = B.append (leaf predicate term nil) := by
  induction B with
  | nil => rfl
  | leaf p t rest ih =>
      obtain ⟨hne, hrest⟩ := not_or.mp (List.mem_cons.not.mp h)
      have hne' : ¬ (p = predicate ∧ t = term) := fun heq => hne (Prod.ext heq.1.symm heq.2.symm)
      simp [addLeaf, append, hne', ih hrest]
  | edge e below rest _ ih => simp [addLeaf, append, ih h]
  | alternative isSlot body rest _ ih => simp [addLeaf, append, ih h]
  | conjunct own body rest _ ih => simp [addLeaf, append, ih h]

theorem updateEdge_of_not_mem (h : e ∉ B.edges.map Prod.fst) (f : Body → Body) :
    B.updateEdge e f = B.append (edge e (f nil) nil) := by
  induction B with
  | nil => rfl
  | leaf p t rest ih => simp [updateEdge, append, ih h]
  | edge e' below rest _ ih =>
      obtain ⟨hne, hrest⟩ := not_or.mp (List.mem_cons.not.mp h)
      simp [updateEdge, append, Ne.symm hne, ih hrest]
  | alternative isSlot body rest _ ih => simp [updateEdge, append, ih h]
  | conjunct own body rest _ ih => simp [updateEdge, append, ih h]

theorem updateSlot_of_slots (h : B.slots = []) (f : Body → Body) :
    B.updateSlot f = B.append (alternative true (f nil) nil) := by
  induction B with
  | nil => rfl
  | leaf p t rest ih => simp [updateSlot, append, ih h]
  | edge e below rest _ ih => simp [updateSlot, append, ih h]
  | alternative isSlot body rest _ ih =>
      cases isSlot with
      | true => simp [slots] at h
      | false => simp [updateSlot, append, ih h]
  | conjunct own body rest _ ih => simp [updateSlot, append, ih h]

/-- Nothing of the second pattern is in the first one already. -/
structure Apart (B C : Body) : Prop where
  leaves : ∀ x ∈ B.leaves, x ∉ C.leaves
  edges : ∀ e ∈ B.edges.map Prod.fst, e ∉ C.edges.map Prod.fst
  slots : B.slots = [] ∨ C.slots = []

theorem apart_nil (C : Body) : nil.Apart C :=
  ⟨by simp [Body.leaves], by simp [Body.edges], Or.inl rfl⟩

theorem merge_eq_append (hC : C.Neat) (h : B.Apart C) : B.merge C = B.append C := by
  induction C generalizing B with
  | nil => exact (append_nil B).symm
  | leaf predicate term rest ih =>
      obtain ⟨hleaves, hedges, hslots⟩ := h
      have hnot : (predicate, term) ∉ B.leaves := fun hmem => hleaves _ hmem List.mem_cons_self
      have hrest : (B.append (leaf predicate term nil)).Apart rest := by
        refine ⟨fun x hx hmem => ?_, by simpa [edges_append, Body.edges] using hedges,
          by simpa [slots_append, Body.slots] using hslots⟩
        rw [leaves_append] at hx
        obtain hx | hx := List.mem_append.mp hx
        · exact hleaves x hx (List.mem_cons_of_mem _ hmem)
        · exact hC.sparse.1 (List.mem_singleton.mp hx ▸ hmem)
      rw [merge, addLeaf_of_not_mem hnot, ih ⟨hC.tidy, hC.sparse.2⟩ hrest, append_assoc]
      rfl
  | edge e below rest ihBelow ih =>
      obtain ⟨hleaves, hedges, hslots⟩ := h
      obtain ⟨hne, hbelow, htidy⟩ := hC.tidy
      have hnot : e ∉ B.edges.map Prod.fst := fun hmem => hedges e hmem List.mem_cons_self
      have hnil : nil.merge below = below := ihBelow ⟨hbelow, hC.sparse.1⟩ (apart_nil below)
      have hrest : (B.append (edge e below nil)).Apart rest := by
        refine ⟨by simpa [leaves_append, Body.leaves] using hleaves, fun x hx hmem => ?_,
          by simpa [slots_append, Body.slots] using hslots⟩
        rw [edges_append, List.map_append] at hx
        obtain hx | hx := List.mem_append.mp hx
        · exact hedges x hx (List.mem_cons_of_mem _ hmem)
        · obtain ⟨y, hy, rfl⟩ := List.mem_map.mp hmem
          exact hne y hy (List.mem_singleton.mp hx)
      rw [merge, updateEdge_of_not_mem hnot, hnil, ih ⟨htidy, hC.sparse.2⟩ hrest, append_assoc]
      rfl
  | alternative isSlot body rest ihBody ih =>
      obtain ⟨hleaves, hedges, hslots⟩ := h
      obtain ⟨hone, hbody, htidy⟩ := hC.tidy
      have hrest : (B.append (alternative isSlot body nil)).Apart rest := by
        refine ⟨by simpa [leaves_append, Body.leaves] using hleaves,
          by simpa [edges_append, Body.edges] using hedges, ?_⟩
        cases isSlot with
        | true => exact Or.inr (hone rfl)
        | false => simpa [slots_append, Body.slots] using hslots
      have hrest := ih ⟨htidy, hC.sparse.2⟩ hrest
      cases isSlot with
      | true =>
          have hnone : B.slots = [] := hslots.resolve_right (by simp [Body.slots])
          have hnil : nil.merge body = body := ihBody ⟨hbody, hC.sparse.1⟩ (apart_nil body)
          rw [merge, updateSlot_of_slots hnone, hnil, hrest, append_assoc]
          rfl
      | false =>
          rw [merge, hrest, append_assoc]
          rfl
  | conjunct own body rest _ ih =>
      have hrest : (B.append (conjunct own body nil)).Apart rest := by
        obtain ⟨hleaves, hedges, hslots⟩ := h
        exact ⟨by simpa [leaves_append, Body.leaves] using hleaves,
          by simpa [edges_append, Body.edges] using hedges, by simpa [slots_append, Body.slots] using hslots⟩
      rw [merge, ih ⟨hC.tidy.2, hC.sparse.2⟩ hrest, append_assoc]
      rfl

theorem nil_merge (hB : B.Neat) : nil.merge B = B :=
  merge_eq_append hB (apart_nil B)

theorem merge_append (B C D : Body) : B.merge (C.append D) = (B.merge C).merge D := by
  induction C generalizing B with
  | nil => rfl
  | leaf predicate term rest ih => exact ih _
  | edge e below rest _ ih => exact ih _
  | alternative isSlot body rest _ ih => cases isSlot <;> exact ih _
  | conjunct own body rest _ ih => exact ih _

theorem merge_addLeaf (A B : Body) (predicate term : String) :
    A.merge (B.addLeaf predicate term) = (A.merge B).addLeaf predicate term := by
  induction B generalizing A with
  | nil => rfl
  | leaf p t rest ih =>
      by_cases heq : p = predicate ∧ t = term
      · obtain ⟨rfl, rfl⟩ := heq
        have hmem := (within_iff.mp (within_merge_right A (leaf p t rest))).1 _ List.mem_cons_self
        rw [addLeaf_of_mem hmem, addLeaf_of_mem List.mem_cons_self]
      · simp only [addLeaf, heq, if_false, merge, ih]
  | edge e below rest _ ih => exact ih _
  | alternative isSlot body rest _ ih => cases isSlot <;> exact ih _
  | conjunct own body rest _ ih => exact ih _

theorem merge_updateEdge_merge (hB : B.Tidy) (hnil : nil.merge below = below)
    (hassoc : ∀ there C : Body, C.Tidy → (there.merge C).merge below =
      there.merge (C.merge below)) (A : Body) :
    A.merge (B.updateEdge e fun there => there.merge below) =
      (A.merge B).updateEdge e fun there => there.merge below := by
  induction B generalizing A with
  | nil => simp only [updateEdge, merge, hnil]
  | leaf p t rest ih => exact ih hB _
  | edge e' below' rest _ ih =>
      obtain ⟨hne, hbelow', hrest⟩ := hB
      by_cases he : e' = e
      · subst he
        obtain ⟨there, hthere⟩ := mem_edges_updateEdge A e' fun there => there.merge below'
        have hmem := List.mem_map_of_mem (f := Prod.fst) hthere
        simp only [updateEdge, if_true, merge]
        rw [merge_updateEdge hmem hne, updateEdge_updateEdge]
        simp only [hassoc _ _ hbelow']
      · simp only [updateEdge, he, if_false, merge, ih hrest]
  | alternative isSlot body rest _ ih => cases isSlot <;> exact ih hB.2.2 _
  | conjunct own body rest _ ih => exact ih hB.2 _

theorem merge_updateSlot_merge (hB : B.Tidy) (hnil : nil.merge below = below)
    (hassoc : ∀ there C : Body, C.Tidy → (there.merge C).merge below =
      there.merge (C.merge below)) (A : Body) :
    A.merge (B.updateSlot fun there => there.merge below) =
      (A.merge B).updateSlot fun there => there.merge below := by
  induction B generalizing A with
  | nil => simp only [updateSlot, merge, hnil]
  | leaf p t rest ih => exact ih hB _
  | edge e' below' rest _ ih => exact ih hB.2.2 _
  | alternative isSlot body rest _ ih =>
      cases isSlot with
      | true =>
          obtain ⟨there, hthere⟩ := mem_slots_updateSlot A fun there => there.merge body
          simp only [updateSlot, merge]
          rw [merge_updateSlot (List.ne_nil_of_mem hthere) (hB.1 rfl), updateSlot_updateSlot]
          simp only [hassoc _ _ hB.2.1]
      | false => exact ih hB.2.2 _
  | conjunct own body rest _ ih => exact ih hB.2 _

theorem merge_assoc (A : Body) (hB : B.Tidy) (hC : C.Neat) : (A.merge B).merge C = A.merge (B.merge C) := by
  induction C generalizing A B with
  | nil => rfl
  | leaf predicate term rest ih =>
      rw [merge, merge, ← merge_addLeaf, ih _ (hB.addLeaf predicate term) ⟨hC.tidy, hC.sparse.2⟩]
  | edge e below rest ihBelow ih =>
      obtain ⟨-, hbelow, htidy⟩ := hC.tidy
      have hneat : below.Neat := ⟨hbelow, hC.sparse.1⟩
      have hassoc := fun (there C : Body) (h : C.Tidy) => ihBelow there h hneat
      rw [merge, merge, ← merge_updateEdge_merge hB (nil_merge hneat) hassoc,
        ih _ (hB.updateEdge e fun there h => h.merge hbelow) ⟨htidy, hC.sparse.2⟩]
  | alternative isSlot body rest ihBody ih =>
      obtain ⟨-, hbody, htidy⟩ := hC.tidy
      have hneat : body.Neat := ⟨hbody, hC.sparse.1⟩
      cases isSlot with
      | true =>
          have hassoc := fun (there C : Body) (h : C.Tidy) => ihBody there h hneat
          rw [merge, merge, ← merge_updateSlot_merge hB (nil_merge hneat) hassoc,
            ih _ (hB.updateSlot fun there h => h.merge hbody) ⟨htidy, hC.sparse.2⟩]
      | false =>
          have happend := merge_append A B (alternative false body nil)
          rw [merge, merge, ← ih _ (hB.append_alternative hbody) ⟨htidy, hC.sparse.2⟩, happend]
          rfl
  | conjunct own body rest _ ih =>
      have happend := merge_append A B (conjunct own body nil)
      rw [merge, merge, ← ih _ (hB.append_conjunct hC.tidy.1 own) ⟨hC.tidy.2, hC.sparse.2⟩, happend]
      rfl

end Body

namespace Construction

open Body

def andThen {α : Type} (outcome : α × Option PatternError) (go : α → α × Option PatternError) :
    α × Option PatternError :=
  match outcome with
  | (state, some e) => (state, some e)
  | (state, none) => go state

def Adds (f : Body → Body × Option PatternError) : Prop :=
  (f .nil).1.Neat ∧ ∀ B : Body, B.Tidy → f B = (B.merge (f .nil).1, (f .nil).2)

theorem Adds.step {f : Body → Body × Option PatternError} (hf : Adds f) {part : Body} (hpart : part.Neat)
    (error : Option PatternError) : Adds fun B => andThen (B.merge part, error) f := by
  obtain ⟨hneat, hf⟩ := hf
  have hnil : Body.nil.merge part = part := nil_merge hpart
  cases error with
  | some e => exact ⟨by simpa only [andThen, hnil] using hpart, fun B _ => by simp only [andThen, hnil]⟩
  | none =>
      refine ⟨?_, fun B hB => ?_⟩
      · simpa only [andThen, hnil, hf part hpart.tidy] using hpart.merge hneat
      · simp only [andThen, hnil, hf part hpart.tidy, hf _ (hB.merge hpart.tidy),
          merge_assoc B hpart.tidy hneat]

variable (e : Edge) (nested apart next : Construction) (root own : String)

theorem run_edge : (edge e nested next).run root = fun B =>
    andThen (B.merge (.edge e (nested.run e.target .nil).1 .nil), (nested.run e.target .nil).2)
      (next.run root) := by
  funext B
  rw [run]
  generalize nested.run e.target .nil = outcome
  obtain ⟨inner, _ | failed⟩ := outcome <;> rfl

theorem run_slot : (slot nested next).run root = fun B =>
    andThen (B.merge (.alternative true (nested.run root .nil).1 .nil), (nested.run root .nil).2)
      (next.run root) := by
  funext B
  rw [run]
  generalize nested.run root .nil = outcome
  obtain ⟨inner, _ | failed⟩ := outcome <;> rfl

theorem run_alternative : (alternative nested next).run root = fun B =>
    andThen (B.merge (.alternative false (nested.run root .nil).1 .nil), (nested.run root .nil).2)
      (next.run root) := by
  funext B
  rw [run]
  generalize nested.run root .nil = outcome
  obtain ⟨inner, _ | failed⟩ := outcome <;> rfl

theorem run_conjunct : (conjunct own nested next).run root = fun B =>
    andThen (B.merge (.conjunct own (nested.run own .nil).1 .nil), (nested.run own .nil).2)
      (next.run root) := by
  funext B
  rw [run]
  generalize nested.run own .nil = outcome
  obtain ⟨inner, _ | failed⟩ := outcome <;> rfl

theorem run_addConjunct : (addConjunct own apart next).run root = fun B =>
    match apart.run own .nil with
    | (_, some failed) => (B, some failed)
    | (inner, none) => andThen (B.merge (.conjunct own inner .nil), none) (next.run root) := by
  funext B
  rw [run]
  rfl

theorem run_merge : (merge own apart next).run root = fun B =>
    match apart.run own .nil with
    | (_, some failed) => (B, some failed)
    | (inner, none) =>
      if root = own then andThen (B.merge inner, none) (next.run root)
      else (B, some (.rootMismatch root own)) := by
  funext B
  rw [run]
  generalize apart.run own .nil = outcome
  obtain ⟨inner, _ | failed⟩ := outcome
  · by_cases h : root = own <;> simp [Pattern.merge, andThen, h]
  · rfl

theorem adds_nothing (error : Option PatternError) : Adds fun B => (B, error) :=
  ⟨neat_nil, fun _ _ => rfl⟩

theorem run_adds (c : Construction) : ∀ root, Adds (c.run root) := by
  induction c with
  | done => exact fun _ => adds_nothing none
  | leaf predicate term next ih =>
      exact fun root => (ih root).step (neat_leaf predicate term) none
  | edge e nested next ihNested ih =>
      intro root
      have hneat := (ihNested e.target).1
      rw [run_edge]
      exact (ih root).step (hneat.edge e) _
  | slot nested next ihNested ih =>
      intro root
      have hneat := (ihNested root).1
      rw [run_slot]
      exact (ih root).step (hneat.alternative true) _
  | alternative nested next ihNested ih =>
      intro root
      have hneat := (ihNested root).1
      rw [run_alternative]
      exact (ih root).step (hneat.alternative false) _
  | conjunct own nested next ihNested ih =>
      intro root
      have hneat := (ihNested own).1
      rw [run_conjunct]
      exact (ih root).step (hneat.conjunct own) _
  | addConjunct own apart next ihApart ih =>
      intro root
      have hneat := (ihApart own).1
      rw [run_addConjunct]
      split
      · exact adds_nothing _
      · next heq =>
          rw [heq] at hneat
          exact (ih root).step (hneat.conjunct own) none
  | merge own apart next ihApart ih =>
      intro root
      have hneat := (ihApart own).1
      rw [run_merge]
      split
      · exact adds_nothing _
      · next heq =>
          rw [heq] at hneat
          split
          · exact (ih root).step hneat none
          · exact adds_nothing _

theorem run_eq_merge (c : Construction) (root : String) {B : Body} (hB : B.Tidy) :
    c.run root B = (B.merge (c.run root .nil).1, (c.run root .nil).2) :=
  (c.run_adds root).2 B hB

theorem run_neat (c : Construction) (root : String) {B : Body} (hB : B.Neat) : (c.run root B).1.Neat := by
  rw [run_eq_merge c root hB.tidy]
  exact hB.merge (c.run_adds root).1

end Construction
end EntityGraph
