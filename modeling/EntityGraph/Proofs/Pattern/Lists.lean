import EntityGraph.Proofs.Pattern.Monoid

/-!
# A merged pattern list by list

What a merge does to each of the lists of a pattern: leaves are added unless they are there, an edge changes
what hangs below it or comes last, the slot takes what is in the slot, and other alternatives and conjuncts
come last. No list depends on another one.
-/
namespace EntityGraph.Body

variable {A B : Body}

def leafInto (leaves : List (String × String)) (leaf : String × String) : List (String × String) :=
  if leaf ∈ leaves then leaves else leaves ++ [leaf]

@[grind =] def edgeInto (e : Edge) (f : Body → Body) : List (Edge × Body) → List (Edge × Body)
  | [] => [(e, f nil)]
  | (e', there) :: rest => if e' = e then (e', f there) :: rest else (e', there) :: edgeInto e f rest

@[grind =] def slotInto (f : Body → Body) : List (Bool × Body) → List (Bool × Body)
  | [] => [(true, f nil)]
  | (true, there) :: rest => (true, f there) :: rest
  | (false, there) :: rest => (false, there) :: slotInto f rest

/-- The alternatives of a level, and which of them is the slot. -/
@[grind =] def tagged : Body → List (Bool × Body)
  | nil => []
  | leaf _ _ rest => rest.tagged
  | edge _ _ rest => rest.tagged
  | alternative isSlot body rest => (isSlot, body) :: rest.tagged
  | conjunct _ _ rest => rest.tagged

theorem leaves_addLeaf (B : Body) (predicate term : String) :
    (B.addLeaf predicate term).leaves = leafInto B.leaves (predicate, term) := by
  by_cases h : (predicate, term) ∈ B.leaves
  · rw [addLeaf_of_mem h, leafInto, if_pos h]
  · rw [addLeaf_of_not_mem h, leaves_append, leafInto, if_neg h]
    rfl

theorem edges_updateEdge (B : Body) (e : Edge) (f : Body → Body) :
    (B.updateEdge e f).edges = edgeInto e f B.edges := by
  induction B with
  | nil => rfl
  | leaf p t rest ih => exact ih
  | edge e' below rest _ ih => by_cases h : e' = e <;> simp [updateEdge, edges, edgeInto, h, ih]
  | alternative isSlot body rest _ ih => exact ih
  | conjunct own body rest _ ih => exact ih

theorem tagged_append (B C : Body) : (B.append C).tagged = B.tagged ++ C.tagged := by
  induction B with
  | nil => rfl
  | leaf p t rest ih => exact ih
  | edge e below rest _ ih => exact ih
  | alternative isSlot body rest _ ih => exact congrArg (List.cons _) ih
  | conjunct own body rest _ ih => exact ih

theorem tagged_addLeaf (B : Body) (predicate term : String) :
    (B.addLeaf predicate term).tagged = B.tagged := by
  induction B with
  | nil => rfl
  | leaf p t rest ih => by_cases h : p = predicate ∧ t = term <;> simp [addLeaf, tagged, h, ih]
  | edge e below rest _ ih => exact ih
  | alternative isSlot body rest _ ih => exact congrArg (List.cons _) ih
  | conjunct own body rest _ ih => exact ih

theorem tagged_updateEdge (B : Body) (e : Edge) (f : Body → Body) : (B.updateEdge e f).tagged = B.tagged := by
  induction B with
  | nil => rfl
  | leaf p t rest ih => exact ih
  | edge e' below rest _ ih => by_cases h : e' = e <;> simp [updateEdge, tagged, h, ih]
  | alternative isSlot body rest _ ih => exact congrArg (List.cons _) ih
  | conjunct own body rest _ ih => exact ih

theorem tagged_updateSlot (B : Body) (f : Body → Body) : (B.updateSlot f).tagged = slotInto f B.tagged := by
  induction B with
  | nil => rfl
  | leaf p t rest ih => exact ih
  | edge e below rest _ ih => exact ih
  | alternative isSlot body rest _ ih => cases isSlot <;> simp [updateSlot, tagged, slotInto, ih]
  | conjunct own body rest _ ih => exact ih

theorem conjuncts_addLeaf (B : Body) (predicate term : String) :
    (B.addLeaf predicate term).conjuncts = B.conjuncts := by
  induction B with
  | nil => rfl
  | leaf p t rest ih => by_cases h : p = predicate ∧ t = term <;> simp [addLeaf, conjuncts, h, ih]
  | edge e below rest _ ih => exact ih
  | alternative isSlot body rest _ ih => exact ih
  | conjunct own body rest _ ih => exact congrArg (List.cons _) ih

theorem conjuncts_updateEdge (B : Body) (e : Edge) (f : Body → Body) :
    (B.updateEdge e f).conjuncts = B.conjuncts := by
  induction B with
  | nil => rfl
  | leaf p t rest ih => exact ih
  | edge e' below rest _ ih => by_cases h : e' = e <;> simp [updateEdge, conjuncts, h, ih]
  | alternative isSlot body rest _ ih => exact ih
  | conjunct own body rest _ ih => exact congrArg (List.cons _) ih

theorem conjuncts_updateSlot (B : Body) (f : Body → Body) : (B.updateSlot f).conjuncts = B.conjuncts := by
  induction B with
  | nil => rfl
  | leaf p t rest ih => exact ih
  | edge e below rest _ ih => exact ih
  | alternative isSlot body rest _ ih => cases isSlot <;> simp [updateSlot, conjuncts, ih]
  | conjunct own body rest _ ih => exact congrArg (List.cons _) ih

def mergeEdge (here : List (Edge × Body)) (x : Edge × Body) : List (Edge × Body) :=
  edgeInto x.1 (fun there => there.merge x.2) here

def mergeChoice (here : List (Bool × Body)) : Bool × Body → List (Bool × Body)
  | (true, body) => slotInto (fun there => there.merge body) here
  | (false, body) => here ++ [(false, body)]

theorem leaves_merge (A B : Body) : (A.merge B).leaves = B.leaves.foldl leafInto A.leaves := by
  induction B generalizing A with
  | nil => rfl
  | leaf predicate term rest ih => rw [merge, ih, leaves_addLeaf]; rfl
  | edge e below rest _ ih => rw [merge, ih, leaves_updateEdge]; rfl
  | alternative isSlot body rest _ ih =>
      cases isSlot with
      | true => rw [merge, ih, leaves_updateSlot]; rfl
      | false => rw [merge, ih, leaves_append]; simp [leaves]
  | conjunct own body rest _ ih => rw [merge, ih, leaves_append]; simp [leaves]

theorem edges_merge (A B : Body) : (A.merge B).edges = B.edges.foldl mergeEdge A.edges := by
  induction B generalizing A with
  | nil => rfl
  | leaf predicate term rest ih => rw [merge, ih, edges_addLeaf]; rfl
  | edge e below rest _ ih => rw [merge, ih, edges_updateEdge]; rfl
  | alternative isSlot body rest _ ih =>
      cases isSlot with
      | true => rw [merge, ih, (edges_updateSlot _ _).1]; rfl
      | false => rw [merge, ih, edges_append]; simp [edges]
  | conjunct own body rest _ ih => rw [merge, ih, edges_append]; simp [edges]

theorem tagged_merge (A B : Body) : (A.merge B).tagged = B.tagged.foldl mergeChoice A.tagged := by
  induction B generalizing A with
  | nil => rfl
  | leaf predicate term rest ih => rw [merge, ih, tagged_addLeaf]; rfl
  | edge e below rest _ ih => rw [merge, ih, tagged_updateEdge]; rfl
  | alternative isSlot body rest _ ih =>
      cases isSlot with
      | true => rw [merge, ih, tagged_updateSlot]; rfl
      | false => rw [merge, ih, tagged_append]; rfl
  | conjunct own body rest _ ih => rw [merge, ih, tagged_append]; simp [tagged]

theorem conjuncts_merge (A B : Body) : (A.merge B).conjuncts = A.conjuncts ++ B.conjuncts := by
  induction B generalizing A with
  | nil => simp [merge, conjuncts]
  | leaf predicate term rest ih => rw [merge, ih, conjuncts_addLeaf]; rfl
  | edge e below rest _ ih => rw [merge, ih, conjuncts_updateEdge]; rfl
  | alternative isSlot body rest _ ih =>
      cases isSlot with
      | true => rw [merge, ih, conjuncts_updateSlot]; rfl
      | false => rw [merge, ih, conjuncts_append]; simp [conjuncts]
  | conjunct own body rest _ ih => rw [merge, ih, conjuncts_append]; simp [conjuncts]

theorem alternatives_eq_tagged (B : Body) : B.alternatives = B.tagged.map Prod.snd := by
  induction B with
  | nil => rfl
  | leaf p t rest ih => exact ih
  | edge e below rest _ ih => exact ih
  | alternative isSlot body rest _ ih => exact congrArg (List.cons _) ih
  | conjunct own body rest _ ih => exact ih

theorem slots_eq_tagged (B : Body) : B.slots = (B.tagged.filter (·.1)).map Prod.snd := by
  induction B with
  | nil => rfl
  | leaf p t rest ih => exact ih
  | edge e below rest _ ih => exact ih
  | alternative isSlot body rest _ ih => cases isSlot <;> simp [slots, tagged, ih]
  | conjunct own body rest _ ih => exact ih

theorem collections_eq_tagged (B : Body) : B.collections = (B.tagged.filter (!·.1)).map Prod.snd := by
  induction B with
  | nil => rfl
  | leaf p t rest ih => exact ih
  | edge e below rest _ ih => exact ih
  | alternative isSlot body rest _ ih => cases isSlot <;> simp [collections, tagged, ih]
  | conjunct own body rest _ ih => exact ih

theorem collections_sublist (B : Body) : B.collections.Sublist B.alternatives := by
  rw [collections_eq_tagged, alternatives_eq_tagged]
  exact List.filter_sublist.map _

theorem filter_slotInto (f : Body → Body) (choices : List (Bool × Body)) :
    (slotInto f choices).filter (!·.1) = choices.filter (!·.1) := by
  induction choices with
  | nil => rfl
  | cons choice rest ih =>
      obtain ⟨isSlot, body⟩ := choice
      cases isSlot <;> simp [slotInto, ih]

/-- Alternatives that are no slots are kept as they are, those of the second pattern after those
of the first. -/
theorem collections_merge (A B : Body) : (A.merge B).collections = A.collections ++ B.collections := by
  induction B generalizing A with
  | nil => simp [merge, collections]
  | leaf predicate term rest ih =>
      rw [merge, ih, collections_eq_tagged, tagged_addLeaf, ← collections_eq_tagged]; rfl
  | edge e below rest _ ih =>
      rw [merge, ih, collections_eq_tagged, tagged_updateEdge, ← collections_eq_tagged]; rfl
  | alternative isSlot body rest _ ih =>
      cases isSlot with
      | true =>
          rw [merge, ih, collections_eq_tagged, tagged_updateSlot, filter_slotInto, ← collections_eq_tagged]
          rfl
      | false =>
          rw [merge, ih, collections_eq_tagged, tagged_append, List.filter_append, List.map_append,
            ← collections_eq_tagged]
          simp [tagged, collections]
  | conjunct own body rest _ ih =>
      rw [merge, ih, collections_eq_tagged, tagged_append, List.filter_append, List.map_append,
        ← collections_eq_tagged]
      simp [tagged, collections]

/-- A pattern without alternatives adds none, and takes those of a second pattern as they are. -/
theorem tagged_merge_left (A : Body) {B : Body} (hB : B.tagged = []) : (A.merge B).tagged = A.tagged := by
  rw [tagged_merge, hB]
  rfl

theorem tagged_merge_right {A B : Body} (hA : A.tagged = []) (hB : B.Neat) :
    (A.merge B).tagged = B.tagged := by
  have hnil := tagged_merge nil B
  rw [nil_merge hB] at hnil
  rw [tagged_merge, hA]
  exact hnil.symm

@[grind =] def slot : Body → Body
  | nil => nil
  | leaf _ _ rest => rest.slot
  | edge _ _ rest => rest.slot
  | alternative isSlot body rest => if isSlot then body else rest.slot
  | conjunct _ _ rest => rest.slot

@[grind =] def behind (e : Edge) : Body → Body
  | nil => nil
  | leaf _ _ rest => rest.behind e
  | edge e' below rest => if e' = e then below else rest.behind e
  | alternative _ _ rest => rest.behind e
  | conjunct _ _ rest => rest.behind e

theorem slot_eq_head? (B : Body) : B.slot = (B.slots.head?).getD nil := by
  induction B with
  | nil => rfl
  | leaf p t rest ih => exact ih
  | edge e below rest _ ih => exact ih
  | alternative isSlot body rest _ ih => cases isSlot <;> simp [slot, slots, ih]
  | conjunct own body rest _ ih => exact ih

theorem slot_updateSlot (B : Body) (f : Body → Body) : (B.updateSlot f).slot = f B.slot := by
  induction B with
  | nil => rfl
  | leaf p t rest ih => exact ih
  | edge e below rest _ ih => exact ih
  | alternative isSlot body rest _ ih =>
      cases isSlot with
      | true => rfl
      | false => exact ih
  | conjunct own body rest _ ih => exact ih

theorem slot_append (B : Body) {C : Body} (hC : C.slots = []) : (B.append C).slot = B.slot := by
  induction B with
  | nil => rw [append, slot_eq_head?, hC]; rfl
  | leaf p t rest ih => exact ih
  | edge e below rest _ ih => exact ih
  | alternative isSlot body rest _ ih => simp [append, slot, ih]
  | conjunct own body rest _ ih => exact ih

theorem slot_merge (A : Body) {B : Body} (hB : B.Tidy) : (A.merge B).slot = A.slot.merge B.slot := by
  induction B generalizing A with
  | nil => rfl
  | leaf predicate term rest ih =>
      rw [merge, ih _ hB, slot_eq_head?, slots_addLeaf, ← slot_eq_head?]
      rfl
  | edge e below rest _ ih =>
      rw [merge, ih _ hB.2.2, slot_eq_head?, slots_updateEdge, ← slot_eq_head?]
      rfl
  | alternative isSlot body rest _ ih =>
      cases isSlot with
      | true =>
          have hrest : rest.slot = nil := by rw [slot_eq_head?, hB.1 rfl]; rfl
          rw [merge, ih _ hB.2.2, slot_updateSlot, hrest]
          rfl
      | false =>
          rw [merge, ih _ hB.2.2, slot_append]
          · rfl
          · rfl
  | conjunct own body rest _ ih =>
      rw [merge, ih _ hB.2, slot_append]
      · rfl
      · rfl

theorem behind_of_edges {A : Body} (h : A.edges = B.edges) (e : Edge) : A.behind e = B.behind e := by
  have hlookup : ∀ C : Body, C.behind e = ((C.edges.find? (·.1 = e)).map Prod.snd).getD nil := by
    intro C
    induction C with
    | nil => rfl
    | leaf p t rest ih => exact ih
    | edge e' below rest _ ih => by_cases he : e' = e <;> simp [behind, edges, he, ih]
    | alternative isSlot body rest _ ih => exact ih
    | conjunct own body rest _ ih => exact ih
  rw [hlookup A, hlookup B, h]

theorem behind_updateEdge (B : Body) (e e' : Edge) (f : Body → Body) :
    (B.updateEdge e f).behind e' = if e = e' then f (B.behind e) else B.behind e' := by
  induction B with
  | nil => rfl
  | leaf p t rest ih => exact ih
  | edge first below rest _ ih =>
      by_cases hfirst : first = e
      · subst hfirst
        by_cases h : first = e' <;> simp [updateEdge, behind, h]
      · by_cases h : e = e'
        · subst h
          simp [updateEdge, behind, hfirst, ih]
        · rw [updateEdge, if_neg hfirst, behind, ih, if_neg h, if_neg h, behind]
  | alternative isSlot body rest _ ih => exact ih
  | conjunct own body rest _ ih => exact ih

theorem behind_eq_nil {e : Edge} (h : ∀ x ∈ B.edges, x.1 ≠ e) : B.behind e = nil := by
  induction B with
  | nil => rfl
  | leaf p t rest ih => exact ih h
  | edge first below rest _ ih =>
      obtain ⟨hfirst, hrest⟩ := List.forall_mem_cons.mp h
      rw [behind, if_neg hfirst, ih hrest]
  | alternative isSlot body rest _ ih => exact ih h
  | conjunct own body rest _ ih => exact ih h

theorem behind_merge (A : Body) {B : Body} (hB : B.Tidy) (e : Edge) :
    (A.merge B).behind e = (A.behind e).merge (B.behind e) := by
  induction B generalizing A with
  | nil => rfl
  | leaf predicate term rest ih => rw [merge, ih _ hB, behind_of_edges (edges_addLeaf A predicate term)]; rfl
  | edge first below rest _ ih =>
      rw [merge, ih _ hB.2.2, behind_updateEdge]
      by_cases h : first = e
      · subst h
        rw [if_pos rfl, behind_eq_nil hB.1, behind, if_pos rfl]
        rfl
      · rw [if_neg h, behind, if_neg h]
  | alternative isSlot body rest _ ih =>
      cases isSlot with
      | true => rw [merge, ih _ hB.2.2, behind_of_edges (edges_updateSlot A _).1]; rfl
      | false =>
          rw [merge, ih _ hB.2.2, behind_of_edges (A := A.append _) (B := A) (by simp [edges_append, edges])]
          rfl
  | conjunct own body rest _ ih =>
      rw [merge, ih _ hB.2, behind_of_edges (A := A.append _) (B := A) (by simp [edges_append, edges])]
      rfl

theorem mem_edges_behind {e : Edge} (h : e ∈ B.edges.map Prod.fst) : (e, B.behind e) ∈ B.edges := by
  induction B with
  | nil => simp [edges] at h
  | leaf p t rest ih => exact ih h
  | edge first below rest _ ih =>
      by_cases hfirst : first = e
      · subst hfirst
        simp [edges, behind]
      · rw [behind, if_neg hfirst]
        exact List.mem_cons_of_mem _ (ih ((List.mem_cons.mp h).resolve_left (Ne.symm hfirst)))
  | alternative isSlot body rest _ ih => exact ih h
  | conjunct own body rest _ ih => exact ih h

theorem mem_alternatives_slot {x : Edge × Body} (h : x ∈ B.slot.edges) : B.slot ∈ B.alternatives := by
  refine mem_alternatives_of_mem_slots ?_
  cases hslots : B.slots with
  | nil => simp [slot_eq_head?, hslots, edges] at h
  | cons S rest => simp [slot_eq_head?, hslots]

theorem slot_of_tagged {A : Body} (h : A.tagged = B.tagged) : A.slot = B.slot := by
  rw [slot_eq_head?, slot_eq_head?, slots_eq_tagged, slots_eq_tagged, h]

theorem collections_of_tagged {A : Body} (h : A.tagged = B.tagged) : A.collections = B.collections := by
  rw [collections_eq_tagged, collections_eq_tagged, h]

theorem Neat.of_mem_inners (hB : B.Neat) {C : Body} (h : C ∈ B.inners) : C.Neat := by
  obtain ⟨htidy, hsparse⟩ := hB
  induction B with
  | nil => simp [inners] at h
  | leaf predicate term rest ih => exact ih h htidy hsparse.2
  | edge e below rest _ ih =>
      rcases List.mem_cons.mp h with rfl | h
      · exact ⟨htidy.2.1, hsparse.1⟩
      · exact ih h htidy.2.2 hsparse.2
  | alternative isSlot body rest _ ih =>
      rcases List.mem_cons.mp h with rfl | h
      · exact ⟨htidy.2.1, hsparse.1⟩
      · exact ih h htidy.2.2 hsparse.2
  | conjunct own body rest _ ih =>
      rcases List.mem_cons.mp h with rfl | h
      · exact ⟨htidy.1, hsparse.1⟩
      · exact ih h htidy.2 hsparse.2

theorem Neat.of_mem_edges (hB : B.Neat) : ∀ x ∈ B.edges, x.2.Neat :=
  fun x hx => hB.of_mem_inners (mem_inners.mpr (Or.inl ⟨x.1, hx⟩))

theorem Neat.of_mem_tagged (hB : B.Neat) : ∀ x ∈ B.tagged, x.2.Neat := by
  intro x hx
  have hmem : x.2 ∈ B.alternatives := by
    rw [alternatives_eq_tagged]
    exact List.mem_map_of_mem hx
  exact hB.of_mem_inners (mem_inners.mpr (Or.inr (Or.inl hmem)))

theorem Neat.of_mem_conjuncts (hB : B.Neat) : ∀ x ∈ B.conjuncts, x.2.Neat :=
  fun x hx => hB.of_mem_inners (mem_inners.mpr (Or.inr (Or.inr ⟨x.1, hx⟩)))

theorem Neat.slot (hB : B.Neat) : B.slot.Neat := by
  rw [slot_eq_head?, slots_eq_tagged]
  cases hslots : B.tagged.filter (·.1) with
  | nil => exact neat_nil
  | cons x rest => exact hB.of_mem_tagged x (List.mem_filter.mp (hslots ▸ List.mem_cons_self)).1

theorem Neat.behind (hB : B.Neat) (e : Edge) : (B.behind e).Neat := by
  by_cases h : e ∈ B.edges.map Prod.fst
  · exact hB.of_mem_edges _ (mem_edges_behind h)
  · rw [behind_eq_nil fun x hx heq => h (List.mem_map.mpr ⟨x, hx, heq⟩)]
    exact neat_nil

/-- What hangs below one edge of the slots of two patterns is merged. -/
theorem behind_slot_merge (A : Body) {B : Body} (hB : B.Neat) (e : Edge) :
    (A.merge B).slot.behind e = (A.slot.behind e).merge (B.slot.behind e) := by
  rw [slot_merge A hB.tidy, behind_merge _ hB.slot.tidy]

end EntityGraph.Body
