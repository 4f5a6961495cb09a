import EntityGraph.Proofs.Pattern.Lists

/-!
# Where the edges of a pattern stand

On a level of a pattern, an edge stands at the root itself, in the slot, or alone in an alternative of its
own. What is demanded of edges may depend on where they stand: merging moves no edge from one seat to another,
and it adds nothing to an alternative that is no slot.
-/
namespace EntityGraph.Body

inductive Seat where
  | own
  | slot
  | collection
  deriving DecidableEq

variable {c : Seat → String → Edge → Prop} {seat : Seat} {root : String} {B C : Body} {e : Edge}
    {f : Body → Body}

/-- All edges satisfy the condition for their seat. Leaves and alternatives stand at the root itself,
alternatives that are no slots are single edges, and there are no conjuncts. -/
def Seated (c : Seat → String → Edge → Prop) : Body → Seat → String → Prop
  | nil, _, _ => True
  | leaf _ _ rest, seat, root => seat = .own ∧ rest.Seated c seat root
  | edge e below rest, seat, root => c seat root e ∧ below.Seated c .own e.target ∧ rest.Seated c seat root
  | alternative isSlot body rest, seat, root =>
    (seat = .own ∧ body.Seated c (if isSlot then .slot else .collection) root ∧
      (isSlot = false → ∃ e below, body = edge e below nil)) ∧ rest.Seated c seat root
  | conjunct _ _ _, _, _ => False

theorem Seated.append (hB : B.Seated c seat root) (hC : C.Seated c seat root) :
    (B.append C).Seated c seat root := by
  induction B with
  | nil => exact hC
  | leaf predicate term rest ih => exact ⟨hB.1, ih hB.2⟩
  | edge e below rest _ ih => exact ⟨hB.1, hB.2.1, ih hB.2.2⟩
  | alternative isSlot body rest _ ih => exact ⟨hB.1, ih hB.2⟩
  | conjunct own body rest _ _ => exact hB.elim

theorem Seated.addLeaf (hB : B.Seated c seat root) (hseat : seat = .own) (predicate term : String) :
    (B.addLeaf predicate term).Seated c seat root := by
  induction B with
  | nil => exact ⟨hseat, trivial⟩
  | leaf p t rest ih =>
      unfold Body.addLeaf
      split
      · exact hB
      · exact ⟨hB.1, ih hB.2⟩
  | edge e below rest _ ih => exact ⟨hB.1, hB.2.1, ih hB.2.2⟩
  | alternative isSlot body rest _ ih => exact ⟨hB.1, ih hB.2⟩
  | conjunct own body rest _ _ => exact hB.elim

theorem Seated.updateEdge (hB : B.Seated c seat root) (he : c seat root e)
    (hf : ∀ there : Body, there.Seated c .own e.target → (f there).Seated c .own e.target) :
    (B.updateEdge e f).Seated c seat root := by
  induction B with
  | nil => exact ⟨he, hf nil trivial, trivial⟩
  | leaf predicate term rest ih => exact ⟨hB.1, ih hB.2⟩
  | edge e' below rest _ ih =>
      unfold Body.updateEdge
      split
      · next heq =>
          subst heq
          exact ⟨hB.1, hf below hB.2.1, hB.2.2⟩
      · exact ⟨hB.1, hB.2.1, ih hB.2.2⟩
  | alternative isSlot body rest _ ih => exact ⟨hB.1, ih hB.2⟩
  | conjunct own body rest _ _ => exact hB.elim

theorem Seated.updateSlot (hB : B.Seated c seat root) (hseat : seat = .own)
    (hf : ∀ there : Body, there.Seated c .slot root → (f there).Seated c .slot root) :
    (B.updateSlot f).Seated c seat root := by
  induction B with
  | nil => exact ⟨⟨hseat, hf nil trivial, by simp⟩, trivial⟩
  | leaf predicate term rest ih => exact ⟨hB.1, ih hB.2⟩
  | edge e below rest _ ih => exact ⟨hB.1, hB.2.1, ih hB.2.2⟩
  | alternative isSlot body rest _ ih =>
      obtain ⟨⟨hown, hbody, hsingle⟩, hrest⟩ := hB
      cases isSlot with
      | true => exact ⟨⟨hown, hf body hbody, by simp⟩, hrest⟩
      | false => exact ⟨⟨hown, hbody, hsingle⟩, ih hrest⟩
  | conjunct own body rest _ _ => exact hB.elim

theorem Seated.merge (hB : B.Seated c seat root) (hC : C.Seated c seat root) :
    (B.merge C).Seated c seat root := by
  induction C generalizing B seat root with
  | nil => exact hB
  | leaf predicate term rest ih => exact ih (hB.addLeaf hC.1 predicate term) hC.2
  | edge e below rest ihBelow ih => exact ih (hB.updateEdge hC.1 fun there h => ihBelow h hC.2.1) hC.2.2
  | alternative isSlot body rest ihBody ih =>
      obtain ⟨⟨hown, hbody, hsingle⟩, hrest⟩ := hC
      cases isSlot with
      | true => exact ih (hB.updateSlot hown fun there h => ihBody h hbody) hrest
      | false => exact ih (hB.append ⟨⟨hown, hbody, hsingle⟩, trivial⟩) hrest
  | conjunct own body rest _ _ => exact hC.elim

theorem Seated.of_mem_edges {entry : Edge × Body} (hB : B.Seated c seat root) (h : entry ∈ B.edges) :
    c seat root entry.1 := by
  induction B with
  | nil => simp [edges] at h
  | leaf predicate term rest ih => exact ih hB.2 h
  | edge e below rest _ ih =>
      obtain rfl | h := List.mem_cons.mp h
      · exact hB.1
      · exact ih hB.2.2 h
  | alternative isSlot body rest _ ih => exact ih hB.2 h
  | conjunct own body rest _ _ => exact hB.elim

theorem Seated.conjuncts_eq_nil (hB : B.Seated c seat root) : B.conjuncts = [] := by
  induction B with
  | nil => rfl
  | leaf predicate term rest ih => exact ih hB.2
  | edge e below rest _ ih => exact ih hB.2.2
  | alternative isSlot body rest _ ih => exact ih hB.2
  | conjunct own body rest _ _ => exact hB.elim

theorem Seated.of_mem_slots {S : Body} (hB : B.Seated c seat root) (h : S ∈ B.slots) :
    S.Seated c .slot root := by
  induction B with
  | nil => simp [slots] at h
  | leaf predicate term rest ih => exact ih hB.2 h
  | edge e below rest _ ih => exact ih hB.2.2 h
  | alternative isSlot body rest _ ih =>
      obtain ⟨⟨-, hbody, -⟩, hrest⟩ := hB
      cases isSlot with
      | true =>
          obtain rfl | h := List.mem_cons.mp h
          · exact hbody
          · exact ih hrest h
      | false => exact ih hrest h
  | conjunct own body rest _ _ => exact hB.elim

theorem Seated.of_mem_collections {A : Body} (hB : B.Seated c seat root) (h : A ∈ B.collections) :
    ∃ e below, A = edge e below nil ∧ c .collection root e := by
  induction B with
  | nil => simp [collections] at h
  | leaf predicate term rest ih => exact ih hB.2 h
  | edge e below rest _ ih => exact ih hB.2.2 h
  | alternative isSlot body rest _ ih =>
      obtain ⟨⟨-, hbody, hsingle⟩, hrest⟩ := hB
      cases isSlot with
      | true => exact ih hrest h
      | false =>
          obtain rfl | h := List.mem_cons.mp h
          · obtain ⟨e, below, rfl⟩ := hsingle rfl
            exact ⟨e, below, rfl, hbody.1⟩
          · exact ih hrest h
  | conjunct own body rest _ _ => exact hB.elim

theorem Seated.slot_parts (hB : B.Seated c .slot root) :
    B.leaves = [] ∧ B.alternatives = [] ∧ B.conjuncts = [] := by
  induction B with
  | nil => exact ⟨rfl, rfl, rfl⟩
  | leaf predicate term rest _ => simp [Seated] at hB
  | edge e below rest _ ih => exact ih hB.2.2
  | alternative isSlot body rest _ _ => simp [Seated] at hB
  | conjunct own body rest _ _ => exact hB.elim

/-- What hangs at the variables of a pattern is seated as the whole pattern is. -/
theorem Seated.eachBelow (hB : B.Seated c seat root) : B.EachBelow fun v C => C.Seated c .own v := by
  induction B generalizing seat root with
  | nil => trivial
  | leaf predicate term rest ih => exact ih hB.2
  | edge e below rest ihBelow ih => exact ⟨⟨hB.2.1, ihBelow hB.2.1⟩, ih hB.2.2⟩
  | alternative isSlot body rest ihBody ih => exact ⟨ihBody hB.1.2.1, ih hB.2⟩
  | conjunct own body rest _ _ => exact hB.elim

end EntityGraph.Body
