import EntityGraph.Proofs.Pattern.Together

/-!
# What merged patterns share

Merging keeps everything of both patterns in its place: edges are edges of the merged pattern with what hangs
below them, what is in the slot is in the slot, and other alternatives and conjuncts are kept as they are. And
what agrees is shared. On every level of a merged pattern no edge occurs twice and there is one slot at most,
so that the parts of both patterns that lead over one edge hang below it together.
-/
namespace EntityGraph

namespace Body

variable {B C M N below : Body} {e : Edge}

/-- The patterns in the slots of a level. -/
@[grind =] def slots : Body → List Body
  | nil => []
  | leaf _ _ rest => rest.slots
  | edge _ _ rest => rest.slots
  | alternative isSlot body rest => if isSlot then body :: rest.slots else rest.slots
  | conjunct _ _ rest => rest.slots

/-- The alternatives of a level that are no slots. -/
@[grind =] def collections : Body → List Body
  | nil => []
  | leaf _ _ rest => rest.collections
  | edge _ _ rest => rest.collections
  | alternative isSlot body rest => if isSlot then rest.collections else body :: rest.collections
  | conjunct _ _ rest => rest.collections

/-- Everything in the first pattern is in the second one, in the same place. -/
@[grind =] def Within : Body → Body → Prop
  | nil, _ => True
  | leaf predicate term rest, M => (predicate, term) ∈ M.leaves ∧ rest.Within M
  | edge e below rest, M => (∃ there, (e, there) ∈ M.edges ∧ below.Within there) ∧ rest.Within M
  | alternative isSlot body rest, M =>
    (if isSlot then ∃ there ∈ M.slots, body.Within there else body ∈ M.collections) ∧ rest.Within M
  | conjunct own body rest, M => (own, body) ∈ M.conjuncts ∧ rest.Within M

theorem within_iff : B.Within M ↔ (∀ x ∈ B.leaves, x ∈ M.leaves) ∧
    (∀ x ∈ B.edges, ∃ there, (x.1, there) ∈ M.edges ∧ x.2.Within there) ∧
    (∀ body ∈ B.slots, ∃ there ∈ M.slots, body.Within there) ∧
    (∀ body ∈ B.collections, body ∈ M.collections) ∧ ∀ x ∈ B.conjuncts, x ∈ M.conjuncts := by
  induction B with
  | nil => simp [Within, leaves, edges, slots, collections, conjuncts]
  | leaf predicate term rest ih => simp [Within, leaves, edges, slots, collections, conjuncts, ih, and_assoc]
  | edge e below rest _ ih =>
      simp only [Within, leaves, edges, slots, collections, conjuncts, ih, List.forall_mem_cons]
      constructor
      · rintro ⟨hedge, hl, he, hrest⟩
        exact ⟨hl, ⟨hedge, he⟩, hrest⟩
      · rintro ⟨hl, ⟨hedge, he⟩, hrest⟩
        exact ⟨hedge, hl, he, hrest⟩
  | alternative isSlot body rest _ ih =>
      cases isSlot with
      | true =>
          simp only [Within, leaves, edges, slots, collections, conjuncts, ih, List.forall_mem_cons, if_true]
          constructor
          · rintro ⟨hslot, hl, he, hs, hrest⟩
            exact ⟨hl, he, ⟨hslot, hs⟩, hrest⟩
          · rintro ⟨hl, he, ⟨hslot, hs⟩, hrest⟩
            exact ⟨hslot, hl, he, hs, hrest⟩
      | false =>
          simp only [Within, leaves, edges, slots, collections, conjuncts, ih, List.forall_mem_cons,
            Bool.false_eq_true, if_false]
          constructor
          · rintro ⟨hbody, hl, he, hs, hc, ho⟩
            exact ⟨hl, he, hs, ⟨hbody, hc⟩, ho⟩
          · rintro ⟨hl, he, hs, ⟨hbody, hc⟩, ho⟩
            exact ⟨hbody, hl, he, hs, hc, ho⟩
  | conjunct own body rest _ ih =>
      simp only [Within, leaves, edges, slots, collections, conjuncts, ih, List.forall_mem_cons]
      constructor
      · rintro ⟨hbody, hl, he, hs, hc, ho⟩
        exact ⟨hl, he, hs, hc, hbody, ho⟩
      · rintro ⟨hl, he, hs, hc, hbody, ho⟩
        exact ⟨hbody, hl, he, hs, hc, ho⟩

theorem Within.of_lists (h : B.Within M) (hleaves : ∀ x ∈ M.leaves, x ∈ N.leaves)
    (hedges : ∀ x ∈ M.edges, x ∈ N.edges) (hslots : ∀ x ∈ M.slots, x ∈ N.slots)
    (hcollections : ∀ x ∈ M.collections, x ∈ N.collections)
    (hconjuncts : ∀ x ∈ M.conjuncts, x ∈ N.conjuncts) : B.Within N := by
  obtain ⟨hl, he, hs, hc, ho⟩ := within_iff.mp h
  refine within_iff.mpr ⟨fun x hx => hleaves x (hl x hx), fun x hx => ?_, fun body hbody => ?_,
    fun x hx => hcollections x (hc x hx), fun x hx => hconjuncts x (ho x hx)⟩
  · obtain ⟨there, hmem, hwithin⟩ := he x hx
    exact ⟨there, hedges _ hmem, hwithin⟩
  · obtain ⟨there, hmem, hwithin⟩ := hs body hbody
    exact ⟨there, hslots _ hmem, hwithin⟩

theorem Within.cons_leaf (h : B.Within M) (predicate term : String) : B.Within (leaf predicate term M) :=
  h.of_lists (fun _ => List.mem_cons_of_mem _) (fun _ => id) (fun _ => id) (fun _ => id) fun _ => id

theorem Within.cons_edge (h : B.Within M) (e : Edge) (below : Body) : B.Within (edge e below M) :=
  h.of_lists (fun _ => id) (fun _ => List.mem_cons_of_mem _) (fun _ => id) (fun _ => id) fun _ => id

theorem Within.cons_alternative (h : B.Within M) (isSlot : Bool) (body : Body) :
    B.Within (alternative isSlot body M) := by
  cases isSlot with
  | true =>
      exact h.of_lists (fun _ => id) (fun _ => id) (fun _ => List.mem_cons_of_mem _) (fun _ => id) fun _ => id
  | false =>
      exact h.of_lists (fun _ => id) (fun _ => id) (fun _ => id) (fun _ => List.mem_cons_of_mem _) fun _ => id

theorem Within.cons_conjunct (h : B.Within M) (own : String) (body : Body) : B.Within (conjunct own body M) :=
  h.of_lists (fun _ => id) (fun _ => id) (fun _ => id) (fun _ => id) fun _ => List.mem_cons_of_mem _

theorem Within.leaf (h : B.Within M) (predicate term : String) :
    (leaf predicate term B).Within (leaf predicate term M) :=
  ⟨List.mem_cons_self, h.cons_leaf predicate term⟩

theorem Within.edge (h : B.Within M) (e : Edge) (hbelow : below.Within C) :
    (edge e below B).Within (edge e C M) :=
  ⟨⟨C, List.mem_cons_self, hbelow⟩, h.cons_edge e C⟩

theorem Within.slot (h : B.Within M) (hbody : below.Within C) :
    (alternative true below B).Within (alternative true C M) :=
  ⟨⟨C, List.mem_cons_self, hbody⟩, h.cons_alternative true C⟩

theorem Within.collection (h : B.Within M) (body : Body) :
    (alternative false body B).Within (alternative false body M) :=
  ⟨List.mem_cons_self, h.cons_alternative false body⟩

theorem Within.conjunct (h : B.Within M) (own : String) (body : Body) :
    (conjunct own body B).Within (conjunct own body M) :=
  ⟨List.mem_cons_self, h.cons_conjunct own body⟩

theorem Within.refl (B : Body) : B.Within B := by
  induction B with
  | nil => trivial
  | leaf predicate term rest ih => exact ih.leaf predicate term
  | edge e below rest ihBelow ih => exact ih.edge e ihBelow
  | alternative isSlot body rest ihBody ih =>
      cases isSlot with
      | true => exact ih.slot ihBody
      | false => exact ih.collection body
  | conjunct own body rest _ ih => exact ih.conjunct own body

theorem Within.alternative (h : B.Within M) (isSlot : Bool) (body : Body) :
    (alternative isSlot body B).Within (alternative isSlot body M) := by
  cases isSlot with
  | true => exact h.slot (.refl body)
  | false => exact h.collection body

theorem Within.trans (h : B.Within M) (h' : M.Within N) : B.Within N := by
  induction B generalizing M N with
  | nil => trivial
  | leaf predicate term rest ih => exact ⟨(within_iff.mp h').1 _ h.1, ih h.2 h'⟩
  | edge e below rest ihBelow ih =>
      obtain ⟨⟨there, hmem, hwithin⟩, hrest⟩ := h
      obtain ⟨there', hmem', hwithin'⟩ := (within_iff.mp h').2.1 _ hmem
      exact ⟨⟨there', hmem', ihBelow hwithin hwithin'⟩, ih hrest h'⟩
  | alternative isSlot body rest ihBody ih =>
      obtain ⟨-, -, hslots, hcollections, -⟩ := within_iff.mp h'
      refine ⟨?_, ih h.2 h'⟩
      cases isSlot with
      | true =>
          obtain ⟨there, hmem, hwithin⟩ := h.1
          obtain ⟨there', hmem', hwithin'⟩ := hslots _ hmem
          exact ⟨there', hmem', ihBody hwithin hwithin'⟩
      | false => exact hcollections _ h.1
  | conjunct own body rest _ ih => exact ⟨(within_iff.mp h').2.2.2.2 _ h.1, ih h.2 h'⟩

theorem within_append_left (B C : Body) : B.Within (B.append C) := by
  induction B with
  | nil => trivial
  | leaf predicate term rest ih => exact ih.leaf predicate term
  | edge e below rest _ ih => exact ih.edge e (.refl below)
  | alternative isSlot body rest _ ih => exact ih.alternative isSlot body
  | conjunct own body rest _ ih => exact ih.conjunct own body

theorem within_append_right (B C : Body) : C.Within (B.append C) := by
  induction B with
  | nil => exact .refl C
  | leaf predicate term rest ih => exact ih.cons_leaf predicate term
  | edge e below rest _ ih => exact ih.cons_edge e below
  | alternative isSlot body rest _ ih => exact ih.cons_alternative isSlot body
  | conjunct own body rest _ ih => exact ih.cons_conjunct own body

theorem within_addLeaf (B : Body) (predicate term : String) : B.Within (B.addLeaf predicate term) := by
  induction B with
  | nil => trivial
  | leaf p t rest ih =>
      unfold addLeaf
      split
      · exact .refl _
      · exact ih.leaf p t
  | edge e below rest _ ih => exact ih.edge e (.refl below)
  | alternative isSlot body rest _ ih => exact ih.alternative isSlot body
  | conjunct own body rest _ ih => exact ih.conjunct own body

theorem within_updateEdge (B : Body) (e : Edge) {f : Body → Body} (hf : ∀ there, Within there (f there)) :
    B.Within (B.updateEdge e f) := by
  induction B with
  | nil => trivial
  | leaf p t rest ih => exact ih.leaf p t
  | edge e' below rest _ ih =>
      unfold updateEdge
      split
      · exact (Within.refl rest).edge e' (hf below)
      · exact ih.edge e' (.refl below)
  | alternative isSlot body rest _ ih => exact ih.alternative isSlot body
  | conjunct own body rest _ ih => exact ih.conjunct own body

theorem within_updateSlot (B : Body) {f : Body → Body} (hf : ∀ there, Within there (f there)) :
    B.Within (B.updateSlot f) := by
  induction B with
  | nil => trivial
  | leaf p t rest ih => exact ih.leaf p t
  | edge e below rest _ ih => exact ih.edge e (.refl below)
  | alternative isSlot body rest _ ih =>
      cases isSlot with
      | true => exact (Within.refl rest).slot (hf body)
      | false => exact ih.collection body
  | conjunct own body rest _ ih => exact ih.conjunct own body

theorem within_merge_left (B C : Body) : B.Within (B.merge C) := by
  induction C generalizing B with
  | nil => exact .refl B
  | leaf predicate term rest ih => exact (within_addLeaf B predicate term).trans (ih _)
  | edge e below rest ihBelow ih => exact (within_updateEdge B e ihBelow).trans (ih _)
  | alternative isSlot body rest ihBody ih =>
      cases isSlot with
      | true => exact (within_updateSlot B ihBody).trans (ih _)
      | false => exact (within_append_left B _).trans (ih _)
  | conjunct own body rest _ ih => exact (within_append_left B _).trans (ih _)

theorem mem_leaves_addLeaf (B : Body) (predicate term : String) :
    (predicate, term) ∈ (B.addLeaf predicate term).leaves := by
  induction B with
  | nil => exact List.mem_cons_self
  | leaf p t rest ih =>
      unfold addLeaf
      split
      · next h => exact List.mem_cons.mpr (Or.inl (Prod.ext h.1.symm h.2.symm))
      · exact List.mem_cons_of_mem _ ih
  | edge e below rest _ ih => exact ih
  | alternative isSlot body rest _ ih => exact ih
  | conjunct own body rest _ ih => exact ih

theorem mem_slots_updateSlot (B : Body) (f : Body → Body) : ∃ there, f there ∈ (B.updateSlot f).slots := by
  induction B with
  | nil => exact ⟨nil, List.mem_cons_self⟩
  | leaf p t rest ih => exact ih
  | edge e below rest _ ih => exact ih
  | alternative isSlot body rest _ ih =>
      cases isSlot with
      | true => exact ⟨body, List.mem_cons_self⟩
      | false => exact ih
  | conjunct own body rest _ ih => exact ih

theorem within_merge_right (B C : Body) : C.Within (B.merge C) := by
  induction C generalizing B with
  | nil => trivial
  | leaf predicate term rest ih =>
      have hhead := within_iff.mp (within_merge_left (B.addLeaf predicate term) rest)
      exact ⟨hhead.1 _ (mem_leaves_addLeaf B predicate term), ih _⟩
  | edge e below rest ihBelow ih =>
      have hhead := within_iff.mp (within_merge_left (B.updateEdge e fun there => there.merge below) rest)
      obtain ⟨there, hthere⟩ := mem_edges_updateEdge B e fun there => there.merge below
      obtain ⟨there', hmem, hwithin⟩ := hhead.2.1 _ hthere
      exact ⟨⟨there', hmem, (ihBelow there).trans hwithin⟩, ih _⟩
  | alternative isSlot body rest ihBody ih =>
      cases isSlot with
      | true =>
          have hhead := within_iff.mp (within_merge_left (B.updateSlot fun there => there.merge body) rest)
          obtain ⟨there, hthere⟩ := mem_slots_updateSlot B fun there => there.merge body
          obtain ⟨there', hmem, hwithin⟩ := hhead.2.2.1 _ hthere
          exact ⟨⟨there', hmem, (ihBody there).trans hwithin⟩, ih _⟩
      | false =>
          have hhead := (within_append_right B (alternative false body nil)).trans (within_merge_left _ rest)
          exact ⟨hhead.1, ih _⟩
  | conjunct own body rest _ ih =>
      have hhead := (within_append_right B (conjunct own body nil)).trans (within_merge_left _ rest)
      exact ⟨hhead.1, ih _⟩

/-- On every level no edge occurs twice, and there is one slot at most. -/
def Tidy : Body → Prop
  | nil => True
  | leaf _ _ rest => rest.Tidy
  | edge e below rest => (∀ x ∈ rest.edges, x.1 ≠ e) ∧ below.Tidy ∧ rest.Tidy
  | alternative isSlot body rest => (isSlot = true → rest.slots = []) ∧ body.Tidy ∧ rest.Tidy
  | conjunct _ body rest => body.Tidy ∧ rest.Tidy

theorem slots_append (B C : Body) : (B.append C).slots = B.slots ++ C.slots := by
  induction B with
  | nil => rfl
  | leaf predicate term rest ih => exact ih
  | edge e below rest _ ih => exact ih
  | alternative isSlot body rest _ ih => cases isSlot <;> simp [append, slots, ih]
  | conjunct own body rest _ ih => exact ih

theorem slots_addLeaf (B : Body) (predicate term : String) : (B.addLeaf predicate term).slots = B.slots := by
  induction B with
  | nil => rfl
  | leaf p t rest ih =>
      unfold addLeaf
      split
      · rfl
      · exact ih
  | edge e below rest _ ih => exact ih
  | alternative isSlot body rest _ ih => simp [addLeaf, slots, ih]
  | conjunct own body rest _ ih => exact ih

theorem edges_addLeaf (B : Body) (predicate term : String) : (B.addLeaf predicate term).edges = B.edges := by
  induction B with
  | nil => rfl
  | leaf p t rest ih =>
      unfold addLeaf
      split
      · rfl
      · exact ih
  | edge e below rest _ ih => simp [addLeaf, edges, ih]
  | alternative isSlot body rest _ ih => exact ih
  | conjunct own body rest _ ih => exact ih

theorem slots_updateEdge (B : Body) (e : Edge) (f : Body → Body) : (B.updateEdge e f).slots = B.slots := by
  induction B with
  | nil => rfl
  | leaf p t rest ih => exact ih
  | edge e' below rest _ ih =>
      unfold updateEdge
      split
      · rfl
      · exact ih
  | alternative isSlot body rest _ ih => simp [updateEdge, slots, ih]
  | conjunct own body rest _ ih => exact ih

theorem mem_edges_of_updateEdge {f : Body → Body} {x : Edge × Body} (h : x ∈ (B.updateEdge e f).edges) :
    x.1 = e ∨ ∃ y ∈ B.edges, y.1 = x.1 := by
  induction B with
  | nil => exact Or.inl (congrArg Prod.fst (List.mem_singleton.mp h))
  | leaf p t rest ih => exact ih h
  | edge e' below rest _ ih =>
      unfold updateEdge at h
      split at h
      · next heq =>
          obtain rfl | h := List.mem_cons.mp h
          · exact Or.inl heq
          · exact Or.inr ⟨x, List.mem_cons_of_mem _ h, rfl⟩
      · obtain rfl | h := List.mem_cons.mp h
        · exact Or.inr ⟨_, List.mem_cons_self, rfl⟩
        · obtain heq | ⟨y, hy, heq⟩ := ih h
          · exact Or.inl heq
          · exact Or.inr ⟨y, List.mem_cons_of_mem _ hy, heq⟩
  | alternative isSlot body rest _ ih => exact ih h
  | conjunct own body rest _ ih => exact ih h

theorem Tidy.append_alternative (hB : B.Tidy) (hC : C.Tidy) : (B.append (alternative false C nil)).Tidy := by
  induction B with
  | nil => exact ⟨by simp, hC, trivial⟩
  | leaf predicate term rest ih => exact ih hB
  | edge e below rest _ ih => exact ⟨by simpa [edges_append, edges] using hB.1, hB.2.1, ih hB.2.2⟩
  | alternative isSlot body rest _ ih => exact ⟨by simpa [slots_append, slots] using hB.1, hB.2.1, ih hB.2.2⟩
  | conjunct own body rest _ ih => exact ⟨hB.1, ih hB.2⟩

theorem Tidy.append_conjunct (hB : B.Tidy) (hC : C.Tidy) (own : String) :
    (B.append (conjunct own C nil)).Tidy := by
  induction B with
  | nil => exact ⟨hC, trivial⟩
  | leaf predicate term rest ih => exact ih hB
  | edge e below rest _ ih => exact ⟨by simpa [edges_append, edges] using hB.1, hB.2.1, ih hB.2.2⟩
  | alternative isSlot body rest _ ih => exact ⟨by simpa [slots_append, slots] using hB.1, hB.2.1, ih hB.2.2⟩
  | conjunct own body rest _ ih => exact ⟨hB.1, ih hB.2⟩

theorem Tidy.addLeaf (hB : B.Tidy) (predicate term : String) : (B.addLeaf predicate term).Tidy := by
  induction B with
  | nil => trivial
  | leaf p t rest ih =>
      unfold Body.addLeaf
      split
      · exact hB
      · exact ih hB
  | edge e below rest _ ih => exact ⟨by simpa [edges_addLeaf] using hB.1, hB.2.1, ih hB.2.2⟩
  | alternative isSlot body rest _ ih => exact ⟨by simpa [slots_addLeaf] using hB.1, hB.2.1, ih hB.2.2⟩
  | conjunct own body rest _ ih => exact ⟨hB.1, ih hB.2⟩

theorem Tidy.updateEdge (hB : B.Tidy) (e : Edge) {f : Body → Body}
    (hf : ∀ there : Body, there.Tidy → (f there).Tidy) : (B.updateEdge e f).Tidy := by
  induction B with
  | nil => exact ⟨by simp [edges], hf nil trivial, trivial⟩
  | leaf p t rest ih => exact ih hB
  | edge e' below rest _ ih =>
      unfold Body.updateEdge
      split
      · exact ⟨hB.1, hf below hB.2.1, hB.2.2⟩
      · next hne =>
          refine ⟨fun x hx => ?_, hB.2.1, ih hB.2.2⟩
          obtain heq | ⟨y, hy, heq⟩ := mem_edges_of_updateEdge hx
          · exact heq ▸ Ne.symm hne
          · exact heq ▸ hB.1 y hy
  | alternative isSlot body rest _ ih => exact ⟨by simpa [slots_updateEdge] using hB.1, hB.2.1, ih hB.2.2⟩
  | conjunct own body rest _ ih => exact ⟨hB.1, ih hB.2⟩

theorem Tidy.updateSlot (hB : B.Tidy) {f : Body → Body} (hf : ∀ there : Body, there.Tidy → (f there).Tidy) :
    (B.updateSlot f).Tidy := by
  induction B with
  | nil => exact ⟨fun _ => rfl, hf nil trivial, trivial⟩
  | leaf p t rest ih => exact ih hB
  | edge e below rest _ ih => exact ⟨by simpa [edges_updateSlot] using hB.1, hB.2.1, ih hB.2.2⟩
  | alternative isSlot body rest _ ih =>
      cases isSlot with
      | true => exact ⟨hB.1, hf body hB.2.1, hB.2.2⟩
      | false => exact ⟨by simp, hB.2.1, ih hB.2.2⟩
  | conjunct own body rest _ ih => exact ⟨hB.1, ih hB.2⟩

theorem Tidy.merge (hB : B.Tidy) (hC : C.Tidy) : (B.merge C).Tidy := by
  induction C generalizing B with
  | nil => exact hB
  | leaf predicate term rest ih => exact ih (hB.addLeaf predicate term) hC
  | edge e below rest ihBelow ih => exact ih (hB.updateEdge e fun there h => ihBelow h hC.2.1) hC.2.2
  | alternative isSlot body rest ihBody ih =>
      cases isSlot with
      | true => exact ih (hB.updateSlot fun there h => ihBody h hC.2.1) hC.2.2
      | false => exact ih (hB.append_alternative hC.2.1) hC.2.2
  | conjunct own body rest _ ih => exact ih (hB.append_conjunct hC.1 own) hC.2

theorem Tidy.slots_eq (hB : B.Tidy) {S : Body} (h : S ∈ B.slots) : B.slots = [S] ∧ S.Tidy := by
  induction B with
  | nil => simp [slots] at h
  | leaf predicate term rest ih => exact ih hB h
  | edge e below rest _ ih => exact ih hB.2.2 h
  | alternative isSlot body rest _ ih =>
      cases isSlot with
      | true =>
          have hrest := hB.1 rfl
          obtain rfl | h := List.mem_cons.mp h
          · exact ⟨by simp [slots, hrest], hB.2.1⟩
          · simp [hrest] at h
      | false => exact ih hB.2.2 h
  | conjunct own body rest _ ih => exact ih hB.2 h

theorem Tidy.edges_to (hB : B.Tidy) (h : (e, below) ∈ B.edges)
    (hagree : ∀ x ∈ B.edges, x.1.target = e.target → x.1 = e) :
    (B.edges.filter fun x => x.1.target = e.target) = [(e, below)] := by
  induction B with
  | nil => simp [edges] at h
  | leaf predicate term rest ih => exact ih hB h hagree
  | edge e' below' rest _ ih =>
      obtain ⟨hne, -, hrest⟩ := hB
      obtain ⟨hhere, hothers⟩ := List.forall_mem_cons.mp hagree
      obtain heq | h := List.mem_cons.mp h
      · obtain ⟨rfl, rfl⟩ := Prod.mk.inj heq
        have hnone : ∀ x ∈ rest.edges, ¬ x.1.target = e.target := fun x hx ht => hne x hx (hothers x hx ht)
        simpa [edges, List.filter_eq_nil_iff] using hnone
      · have htarget : e'.target ≠ e.target := fun ht => hne _ h (hhere ht).symm
        simpa [edges, htarget] using ih hrest h hothers
  | alternative isSlot body rest _ ih => exact ih hB.2.2 h hagree
  | conjunct own body rest _ ih => exact ih hB.2 h hagree

theorem Tidy.eachBelow (hB : B.Tidy) : B.EachBelow fun _ C => C.Tidy := by
  induction B with
  | nil => trivial
  | leaf predicate term rest ih => exact ih hB
  | edge e below rest ihBelow ih => exact ⟨⟨hB.2.1, ihBelow hB.2.1⟩, ih hB.2.2⟩
  | alternative isSlot body rest ihBody ih => exact ⟨ihBody hB.2.1, ih hB.2.2⟩
  | conjunct own body rest ihBody ih => exact ⟨⟨hB.1, ihBody hB.1⟩, ih hB.2⟩

theorem Each.eachBelow {c : Condition} {root : String} (hB : B.Each c root) : B.EachBelow fun v C =>
    C.Each c v := by
  induction B generalizing root with
  | nil => trivial
  | leaf predicate term rest ih => exact ih hB.2
  | edge e below rest ihBelow ih => exact ⟨⟨hB.2.1, ihBelow hB.2.1⟩, ih hB.2.2⟩
  | alternative isSlot body rest ihBody ih => exact ⟨ihBody hB.1, ih hB.2⟩
  | conjunct own body rest ihBody ih => exact ⟨⟨hB.2.1, ihBody hB.2.1⟩, ih hB.2.2⟩

theorem mem_alternatives_of_mem_slots {S : Body} (h : S ∈ B.slots) : S ∈ B.alternatives := by
  induction B with
  | nil => simp [slots] at h
  | leaf predicate term rest ih => exact ih h
  | edge e below rest _ ih => exact ih h
  | alternative isSlot body rest _ ih =>
      cases isSlot with
      | true =>
          obtain rfl | h := List.mem_cons.mp h
          · exact List.mem_cons_self
          · exact List.mem_cons_of_mem _ (ih h)
      | false => exact List.mem_cons_of_mem _ (ih h)
  | conjunct own body rest _ ih => exact ih h

theorem mem_alternatives_of_mem_collections {C : Body} (h : C ∈ B.collections) : C ∈ B.alternatives := by
  induction B with
  | nil => simp [collections] at h
  | leaf predicate term rest ih => exact ih h
  | edge e below rest _ ih => exact ih h
  | alternative isSlot body rest _ ih =>
      cases isSlot with
      | true => exact List.mem_cons_of_mem _ (ih h)
      | false =>
          obtain rfl | h := List.mem_cons.mp h
          · exact List.mem_cons_self
          · exact List.mem_cons_of_mem _ (ih h)
  | conjunct own body rest _ ih => exact ih h

/-- What is in an alternative over an edge hangs at the target of the edge. -/
theorem Within.rootedAt {isSlot : Bool} (h : (Body.alternative isSlot (Body.edge e B nil) nil).Within M) :
    ∃ C ∈ M.rootedAt e.target, B.Within C ∧ ∀ v, ∀ D ∈ C.rootedAt v, D ∈ M.rootedAt v := by
  obtain ⟨S, hS, there, hthere, hwithin⟩ :
      ∃ S ∈ M.alternatives, ∃ there, (e, there) ∈ S.edges ∧ B.Within there := by
    cases isSlot with
    | true =>
        obtain ⟨S, hS, ⟨there, hthere, hwithin⟩, -⟩ := h.1
        exact ⟨S, mem_alternatives_of_mem_slots hS, there, hthere, hwithin⟩
    | false => exact ⟨_, mem_alternatives_of_mem_collections h.1, B, List.mem_cons_self, .refl B⟩
  have hrooted := fun v => rootedAt_of_mem_edges (v := v) hthere
  have hslot := fun v => rootedAt_of_mem_alternatives (v := v) hS
  exact ⟨there, hslot _ _ ((hrooted _).1 rfl), hwithin, fun v D hD => hslot v D ((hrooted v).2 D hD)⟩

end Body

/-- What holds of the whole pattern at its root, and of what hangs below its edges, holds of all that hangs
at a variable. -/
theorem Pattern.forall_rootedAt {P : String → Body → Prop} {p : Pattern} {v : String}
    (hroot : P p.root p.body) (hbelow : p.body.EachBelow P) : ∀ C ∈ p.rootedAt v, P v C := by
  intro C hC
  obtain hC | hC := List.mem_append.mp hC
  · split at hC
    · next heq => exact heq ▸ List.mem_singleton.mp hC ▸ hroot
    · simp at hC
  · exact hbelow.rootedAt C hC

end EntityGraph
