import EntityGraph.Proofs.Pattern.Lists

/-!
# Patterns as records

A pattern can be kept as a record of lists: branches that each hold a pattern with a root of its own, leaves,
alternatives, the index of the alternative that is the slot, and conjuncts. On such records building steps
work in place, and a merge checks the roots on every level that it comes to, so that it could fail after half
of the work is done.

It does not: records that are built step by step show the patterns that the same steps give, and for those a
merge fails at its first check or not at all.
-/
namespace EntityGraph

inductive Stored where
  | node (root : String) (branches : List (Hop × Bool × Stored)) (leaves : List (String × String))
      (union : List Stored) (slot : Option Nat) (conjunctive : List Stored)

namespace Stored

def root : Stored → String
  | node root _ _ _ _ _ => root

def new (root : String) : Stored := node root [] [] [] none []

def branchInto (e : Edge) (f : Stored → Stored × Option PatternError) (added : Stored × Option PatternError) :
    List (Hop × Bool × Stored) → List (Hop × Bool × Stored) × Option PatternError
  | [] => ([(e.hop, e.isOptional, added.1)], added.2)
  | (hop, isOptional, target) :: rest =>
    if hop = e.hop ∧ isOptional = e.isOptional ∧ target.root = e.target then
      ((hop, isOptional, (f target).1) :: rest, (f target).2)
    else
      let (rest, failed) := branchInto e f added rest
      ((hop, isOptional, target) :: rest, failed)

def slotInto (root : String) (f : Stored → Stored × Option PatternError) (union : List Stored) :
    Option Nat → (List Stored × Option Nat) × Option PatternError
  | none => ((union ++ [(f (new root)).1], some union.length), (f (new root)).2)
  | some i =>
    match union[i]? with
    | some there => ((union.set i (f there).1, some i), (f there).2)
    | none => ((union, some i), none)

mutual

def merge : Stored → Stored → Stored × Option PatternError
  | node root branches leaves union slot conjunctive,
      node root' branches' leaves' union' slot' conjunctive' =>
    if root = root' then
      match mergeBranches branches branches' with
      | (branches, some failed) => (node root branches leaves union slot conjunctive, some failed)
      | (branches, none) =>
        let leaves := leaves'.foldl Body.leafInto leaves
        match mergeUnion root (union, slot) slot' 0 union' with
        | ((union, slot), some failed) => (node root branches leaves union slot conjunctive, some failed)
        | ((union, slot), none) => (node root branches leaves union slot (conjunctive ++ conjunctive'), none)
    else (node root branches leaves union slot conjunctive, some (.rootMismatch root root'))

def mergeBranches (here : List (Hop × Bool × Stored)) :
    List (Hop × Bool × Stored) → List (Hop × Bool × Stored) × Option PatternError
  | [] => (here, none)
  | (hop, isOptional, target) :: rest =>
    match branchInto ⟨hop, isOptional, target.root⟩ (fun there => there.merge target) (target, none) here with
    | (here, some failed) => (here, some failed)
    | (here, none) => mergeBranches here rest

def mergeUnion (root : String) (here : List Stored × Option Nat) (slot : Option Nat) (i : Nat) :
    List Stored → (List Stored × Option Nat) × Option PatternError
  | [] => (here, none)
  | alternative :: rest =>
    if slot = some i then
      match slotInto root (fun there => there.merge alternative) here.1 here.2 with
      | (here, some failed) => (here, some failed)
      | (here, none) => mergeUnion root here slot (i + 1) rest
    else mergeUnion root (here.1 ++ [alternative], here.2) slot (i + 1) rest

end

def addLeaf (x : String × String) : Stored → Stored
  | node root branches leaves union slot conjunctive =>
    node root branches (Body.leafInto leaves x) union slot conjunctive

def atEdge (e : Edge) (f : Stored → Stored × Option PatternError) : Stored → Stored × Option PatternError
  | node root branches leaves union slot conjunctive =>
    let (branches, failed) := branchInto e f (f (new e.target)) branches
    (node root branches leaves union slot conjunctive, failed)

def atSlot (f : Stored → Stored × Option PatternError) : Stored → Stored × Option PatternError
  | node root branches leaves union slot conjunctive =>
    let ((union, slot), failed) := slotInto root f union slot
    (node root branches leaves union slot conjunctive, failed)

def atAlternative (f : Stored → Stored × Option PatternError) : Stored → Stored × Option PatternError
  | node root branches leaves union slot conjunctive =>
    (node root branches leaves (union ++ [(f (new root)).1]) slot conjunctive, (f (new root)).2)

def addConjunct : Stored → Stored → Stored
  | node root branches leaves union slot conjunctive, added =>
    node root branches leaves union slot (conjunctive ++ [added])

end Stored

/-- The same building steps, on a record. -/
def Construction.build : Construction → Stored → Stored × Option PatternError
  | done, s => (s, none)
  | leaf predicate term next, s => next.build (s.addLeaf (predicate, term))
  | edge e nested next, s => andThen (s.atEdge e nested.build) next.build
  | slot nested next, s => andThen (s.atSlot nested.build) next.build
  | alternative nested next, s => andThen (s.atAlternative nested.build) next.build
  | conjunct own nested next, s =>
    let (inner, failed) := nested.build (.new own)
    andThen (s.addConjunct inner, failed) next.build
  | addConjunct own apart next, s =>
    match apart.build (.new own) with
    | (_, some failed) => (s, some failed)
    | (inner, none) => next.build (s.addConjunct inner)
  | merge own apart next, s =>
    match apart.build (.new own) with
    | (_, some failed) => (s, some failed)
    | (inner, none) => andThen (s.merge inner) next.build

namespace Stored

def consLeaf (x : String × String) : Stored → Stored
  | node root branches leaves union slot conjunctive =>
      node root branches (x :: leaves) union slot conjunctive

def consBranch (x : Hop × Bool × Stored) : Stored → Stored
  | node root branches leaves union slot conjunctive =>
      node root (x :: branches) leaves union slot conjunctive

def consAlternative (isSlot : Bool) : Stored → Stored → Stored
  | node root branches leaves union slot conjunctive, x =>
    node root branches leaves (x :: union) (if isSlot then some 0 else slot.map (· + 1)) conjunctive

def consConjunct : Stored → Stored → Stored
  | node root branches leaves union slot conjunctive, x =>
      node root branches leaves union slot (x :: conjunctive)

end Stored

namespace Body

variable {B : Body} {e : Edge} {root : String} {F : Stored → Stored × Option PatternError} {f : Body → Body}
  {added : Stored × Option PatternError} {failed : Option PatternError}

def stored : Body → String → Stored
  | nil, root => .new root
  | leaf predicate term rest, root => (rest.stored root).consLeaf (predicate, term)
  | edge e below rest, root => (rest.stored root).consBranch (e.hop, e.isOptional, below.stored e.target)
  | alternative isSlot body rest, root => (rest.stored root).consAlternative isSlot (body.stored root)
  | conjunct own body rest, root => (rest.stored root).consConjunct (body.stored own)

def branch (x : Edge × Body) : Hop × Bool × Stored := (x.1.hop, x.1.isOptional, x.2.stored x.1.target)

theorem stored_eq (B : Body) (root : String) : B.stored root =
    .node root (B.edges.map branch) B.leaves (B.tagged.map fun x => x.2.stored root) (B.tagged.findIdx? (·.1))
      (B.conjuncts.map fun x => x.2.stored x.1) := by
  induction B with
  | nil => rfl
  | leaf predicate term rest ih => rw [stored, ih]; rfl
  | edge e below rest _ ih => rw [stored, ih]; rfl
  | alternative isSlot body rest _ ih =>
      rw [stored, ih]
      cases isSlot <;> simp [Stored.consAlternative, edges, leaves, tagged, conjuncts, List.findIdx?_cons]
  | conjunct own body rest _ ih => rw [stored, ih]; rfl

theorem root_stored (B : Body) (root : String) : (B.stored root).root = root := by
  rw [stored_eq]
  rfl

theorem branchInto_stored (L : List (Edge × Body))
    (hF : ∀ x ∈ L, x.1 = e → F (x.2.stored e.target) = ((f x.2).stored e.target, failed))
    (hadded : added = ((f nil).stored e.target, failed)) :
    Stored.branchInto e F added (L.map branch) = ((edgeInto e f L).map branch, failed) := by
  induction L with
  | nil => simp [Stored.branchInto, edgeInto, branch, hadded]
  | cons x rest ih =>
      obtain ⟨e', there⟩ := x
      obtain ⟨hhere, hrest⟩ := List.forall_mem_cons.mp hF
      by_cases h : e' = e
      · subst h
        simp [Stored.branchInto, edgeInto, branch, root_stored, hhere rfl]
      · have hne : ¬ (e'.hop = e.hop ∧ e'.isOptional = e.isOptional ∧ e'.target = e.target) := by
          rintro ⟨hhop, hoptional, htarget⟩
          cases e'
          cases e
          simp_all
        simp only [List.map_cons, branch, Stored.branchInto, root_stored, if_neg hne, edgeInto, if_neg h]
        exact congrArg (fun o => (_ :: o.1, o.2)) (ih hrest)

theorem slotInto_cons (s : Stored) (union : List Stored) (slot : Option Nat) :
    Stored.slotInto root F (s :: union) (slot.map (· + 1)) =
      let ((union, slot), failed) := Stored.slotInto root F union slot
      ((s :: union, slot.map (· + 1)), failed) := by
  cases slot with
  | none => rfl
  | some i => cases h : union[i]? <;> simp [Stored.slotInto, h]

theorem slotInto_stored (L : List (Bool × Body))
    (hF : ∀ x ∈ L, F (x.2.stored root) = ((f x.2).stored root, failed))
    (hnil : F (.new root) = ((f nil).stored root, failed)) :
    Stored.slotInto root F (L.map fun x => x.2.stored root) (L.findIdx? (·.1)) =
      (((slotInto f L).map fun x => x.2.stored root, (slotInto f L).findIdx? (·.1)), failed) := by
  induction L with
  | nil => simp [Stored.slotInto, slotInto, hnil]
  | cons x rest ih =>
      obtain ⟨isSlot, there⟩ := x
      obtain ⟨hhere, hrest⟩ := List.forall_mem_cons.mp hF
      cases isSlot with
      | true => simp [Stored.slotInto, slotInto, List.findIdx?_cons, hhere]
      | false =>
          have hcons := @slotInto_cons root F (there.stored root)
            (rest.map fun x => x.2.stored root) (rest.findIdx? (·.1))
          rw [ih hrest] at hcons
          simpa [slotInto, List.findIdx?_cons] using hcons

def Merges (root : String) (B : Body) : Prop :=
  nil.merge B = B ∧ ∀ there : Body, (there.stored root).merge (B.stored root) =
    ((there.merge B).stored root, none)

theorem mergeBranches_stored {L K : List (Edge × Body)} (hK : ∀ x ∈ K, x.2.Merges x.1.target) :
    Stored.mergeBranches (L.map branch) (K.map branch) = ((K.foldl mergeEdge L).map branch, none) := by
  induction K generalizing L with
  | nil => simp [Stored.mergeBranches]
  | cons x rest ih =>
      obtain ⟨e, below⟩ := x
      obtain ⟨⟨hnil, hmerge⟩, hrest⟩ := List.forall_mem_cons.mp hK
      have hinto := branchInto_stored (e := e) (f := fun there => there.merge below)
        (F := fun there => there.merge (below.stored e.target)) L (fun x _ _ => hmerge x.2)
        (show (below.stored e.target, none) = ((nil.merge below).stored e.target, none) by rw [hnil])
      simp only [List.map_cons, branch, Stored.mergeBranches, root_stored]
      rw [show (⟨e.hop, e.isOptional, e.target⟩ : Edge) = e from rfl]
      simp only [hinto]
      exact ih hrest

theorem mergeUnion_stored {L K : List (Bool × Body)} {slot : Option Nat} {i : Nat}
    (hK : ∀ x ∈ K, x.2.Merges root) (hslot : ∀ j x, K[j]? = some x → (x.1 = true ↔ slot = some (i + j))) :
    Stored.mergeUnion root (L.map fun x => x.2.stored root, L.findIdx? (·.1)) slot i
        (K.map fun x => x.2.stored root) =
      (((K.foldl mergeChoice L).map fun x => x.2.stored root,
        (K.foldl mergeChoice L).findIdx? (·.1)), none) := by
  induction K generalizing L i with
  | nil => simp [Stored.mergeUnion]
  | cons x rest ih =>
      obtain ⟨isSlot, body⟩ := x
      obtain ⟨⟨hnil, hmerge⟩, hrest⟩ := List.forall_mem_cons.mp hK
      have hhere : isSlot = true ↔ slot = some i := hslot 0 _ rfl
      have hothers : ∀ j x, rest[j]? = some x → (x.1 = true ↔ slot = some (i + 1 + j)) := fun j x hx => by
        rw [hslot (j + 1) x hx]
        simp [Nat.add_comm, Nat.add_left_comm]
      cases isSlot with
      | true =>
          have hinto := slotInto_stored (f := fun there => there.merge body)
            (F := fun there => there.merge (body.stored root)) L (fun x _ => hmerge x.2) (hmerge nil)
          simp only [List.map_cons, Stored.mergeUnion, if_pos (hhere.mp rfl), hinto]
          exact ih hrest hothers
      | false =>
          have hne : ¬ slot = some i := fun h => by simpa using hhere.mpr h
          have happend : (L.map (fun x => x.2.stored root) ++ [body.stored root], L.findIdx? (·.1)) =
              ((L ++ [(false, body)]).map (fun x => x.2.stored root),
                (L ++ [(false, body)]).findIdx? (·.1)) := by
            simp [List.findIdx?_append]
          simp only [List.map_cons, Stored.mergeUnion, if_neg hne, happend]
          exact ih hrest hothers

theorem Tidy.slot_iff (hB : B.Tidy) : ∀ j x, B.tagged[j]? = some x →
    (x.1 = true ↔ B.tagged.findIdx? (·.1) = some j) := by
  induction B with
  | nil => simp [tagged]
  | leaf predicate term rest ih => exact ih hB
  | edge e below rest _ ih => exact ih hB.2.2
  | alternative isSlot body rest _ ih =>
      intro j x hx
      cases isSlot with
      | true =>
          have hnone : ∀ y ∈ rest.tagged, ¬ y.1 = true := by
            have hslots := hB.1 rfl
            rw [slots_eq_tagged, List.map_eq_nil_iff, List.filter_eq_nil_iff] at hslots
            exact hslots
          cases j with
          | zero =>
              obtain rfl : (true, body) = x := by simpa [tagged] using hx
              simp [tagged, List.findIdx?_cons]
          | succ j =>
              have hmem : x ∈ rest.tagged := List.mem_of_getElem? (by simpa [tagged] using hx)
              simp [tagged, List.findIdx?_cons, hnone x hmem]
      | false =>
          cases j with
          | zero =>
              obtain rfl : (false, body) = x := by simpa [tagged] using hx
              simp [tagged, List.findIdx?_cons]
          | succ j => simpa [tagged, List.findIdx?_cons] using ih hB.2.2 j x (by simpa [tagged] using hx)
  | conjunct own body rest _ ih => exact ih hB.2

theorem sizeOf_tagged {x : Bool × Body} (h : x ∈ B.tagged) : sizeOf x.2 < sizeOf B :=
  sizeOf_alternatives (alternatives_eq_tagged B ▸ List.mem_map_of_mem h)

theorem Neat.merges (hB : B.Neat) (root : String) : B.Merges root := by
  -- Records are merged list by list, so that the parts of a level are all needed at once.
  induction hsize : sizeOf B using Nat.strong_induction_on generalizing B root with
  | _ size ih =>
      subst hsize
      have hedges : ∀ x ∈ B.edges, x.2.Merges x.1.target := fun x hx =>
        ih _ (sizeOf_edges hx) (hB.of_mem_edges x hx) _ rfl
      have htagged : ∀ x ∈ B.tagged, x.2.Merges root := fun x hx =>
        ih _ (sizeOf_tagged hx) (hB.of_mem_tagged x hx) _ rfl
      have hslot : ∀ j x, B.tagged[j]? = some x → (x.1 = true ↔ B.tagged.findIdx? (·.1) = some (0 + j)) :=
        fun j x hx => (Nat.zero_add j).symm ▸ hB.tidy.slot_iff j x hx
      refine ⟨nil_merge hB, fun there => ?_⟩
      rw [stored_eq there, stored_eq B, stored_eq (there.merge B), Stored.merge, if_pos rfl]
      simp only [mergeBranches_stored hedges, mergeUnion_stored htagged hslot]
      rw [edges_merge, leaves_merge, tagged_merge, conjuncts_merge, List.map_append]

end Body

theorem Body.stored_merge (A : Body) {B : Body} (hB : B.Neat) (root : String) :
    (A.stored root).merge (B.stored root) = ((A.merge B).stored root, none) :=
  (hB.merges root).2 A

theorem Stored.merge_of_ne {s t : Stored} (h : s.root ≠ t.root) :
    s.merge t = (s, some (.rootMismatch s.root t.root)) := by
  cases s
  cases t
  rw [merge]
  exact if_neg h

namespace Construction

open Body

variable {B : Body} {root : String} {f : Body → Body} {failed : Option PatternError}

theorem andThen_stored {s : Stored × Option PatternError} {go' : Stored → Stored × Option PatternError}
    {go : Body → Body × Option PatternError} (hs : s = (B.stored root, failed))
    (hgo : go' (B.stored root) = ((go B).1.stored root, (go B).2)) :
    andThen s go' = ((andThen (B, failed) go).1.stored root, (andThen (B, failed) go).2) := by
  subst hs
  cases failed with
  | some e => rfl
  | none => exact hgo

theorem atEdge_stored {e : Edge} {F : Stored → Stored × Option PatternError}
    (hF : ∀ there : Body, there.Neat → F (there.stored e.target) = ((f there).stored e.target, failed))
    (hB : B.Neat) : (B.stored root).atEdge e F = ((B.updateEdge e f).stored root, failed) := by
  have hinto := branchInto_stored (F := F) B.edges (fun x hx _ => hF x.2 (hB.of_mem_edges x hx))
    (show F (.new e.target) = _ from hF .nil neat_nil)
  rw [stored_eq, stored_eq (B.updateEdge e f), Stored.atEdge, hinto, edges_updateEdge, leaves_updateEdge,
    tagged_updateEdge, conjuncts_updateEdge]

theorem atSlot_stored {F : Stored → Stored × Option PatternError}
    (hF : ∀ there : Body, there.Neat → F (there.stored root) = ((f there).stored root, failed))
    (hB : B.Neat) : (B.stored root).atSlot F = ((B.updateSlot f).stored root, failed) := by
  have hinto := slotInto_stored (F := F) B.tagged
    (fun x hx => hF x.2 (hB.of_mem_tagged x hx)) (hF .nil neat_nil)
  rw [stored_eq, stored_eq (B.updateSlot f), Stored.atSlot, hinto, (edges_updateSlot B f).1,
    leaves_updateSlot, tagged_updateSlot, conjuncts_updateSlot]

theorem atAlternative_stored {F : Stored → Stored × Option PatternError} {C : Body}
    (hF : F (.new root) = (C.stored root, failed)) (B : Body) :
    (B.stored root).atAlternative F = ((B.append (.alternative false C .nil)).stored root, failed) := by
  rw [stored_eq B, stored_eq (B.append _), Stored.atAlternative, hF, edges_append, leaves_append,
    tagged_append, conjuncts_append]
  simp [edges, leaves, tagged, conjuncts, List.findIdx?_append]

theorem addConjunct_stored (B C : Body) (own : String) :
    (B.stored root).addConjunct (C.stored own) = (B.append (.conjunct own C .nil)).stored root := by
  rw [stored_eq B, stored_eq (B.append _), Stored.addConjunct, edges_append, leaves_append, tagged_append,
    conjuncts_append]
  simp [edges, leaves, tagged, conjuncts]

theorem addLeaf_stored (B : Body) (predicate term : String) :
    (B.stored root).addLeaf (predicate, term) = (B.addLeaf predicate term).stored root := by
  rw [stored_eq B, stored_eq (B.addLeaf _ _), Stored.addLeaf, edges_addLeaf, leaves_addLeaf, tagged_addLeaf,
    conjuncts_addLeaf]

theorem build_stored (c : Construction) : ∀ (root : String) {B : Body}, B.Neat →
    c.build (B.stored root) = ((c.run root B).1.stored root, (c.run root B).2) := by
  induction c with
  | done => exact fun _ _ _ => rfl
  | leaf predicate term next ih =>
      intro root B hB
      rw [build, addLeaf_stored]
      exact ih root ⟨hB.tidy.addLeaf predicate term, hB.sparse.addLeaf predicate term⟩
  | edge e nested next ihNested ih =>
      intro root B hB
      have hneat := (nested.run_adds e.target).1
      rw [build, run_edge]
      refine andThen_stored (atEdge_stored (fun there h => ?_) hB) (ih root (hB.merge (hneat.edge e)))
      rw [ihNested e.target h, run_eq_merge nested e.target h.tidy]
  | slot nested next ihNested ih =>
      intro root B hB
      have hneat := (nested.run_adds root).1
      rw [build, run_slot]
      refine andThen_stored (atSlot_stored (fun there h => ?_) hB)
        (ih root (hB.merge (hneat.alternative true)))
      rw [ihNested root h, run_eq_merge nested root h.tidy]
  | alternative nested next ihNested ih =>
      intro root B hB
      have hneat := (nested.run_adds root).1
      rw [build, run_alternative]
      exact andThen_stored (atAlternative_stored (ihNested root neat_nil) B)
        (ih root (hB.merge (hneat.alternative false)))
  | conjunct own nested next ihNested ih =>
      intro root B hB
      have hneat := (nested.run_adds own).1
      have hnested : nested.build (.new own) = _ := ihNested own neat_nil
      rw [build, run_conjunct, hnested]
      exact andThen_stored (congrArg (·, _) (addConjunct_stored B _ own))
        (ih root (hB.merge (hneat.conjunct own)))
  | addConjunct own apart next ihApart ih =>
      intro root B hB
      have hneat := (apart.run_adds own).1
      have hapart : apart.build (.new own) = _ := ihApart own neat_nil
      rw [build, run_addConjunct, hapart]
      generalize apart.run own .nil = outcome at hneat
      obtain ⟨inner, _ | failed⟩ := outcome
      · simp only [addConjunct_stored]
        exact ih root (hB.merge (hneat.conjunct own))
      · rfl
  | merge own apart next ihApart ih =>
      intro root B hB
      have hneat := (apart.run_adds own).1
      have hapart : apart.build (.new own) = _ := ihApart own neat_nil
      rw [build, run_merge, hapart]
      generalize apart.run own .nil = outcome at hneat
      obtain ⟨inner, _ | failed⟩ := outcome
      · by_cases hroot : root = own
        · subst hroot
          simp only [if_true]
          exact andThen_stored (stored_merge B hneat root) (ih root (hB.merge hneat))
        · have hne : (B.stored root).root ≠ (inner.stored own).root := by simpa only [root_stored] using hroot
          simp only [Stored.merge_of_ne hne, root_stored, if_neg hroot]
          rfl
      · rfl

end Construction

/-- On every level no branch and no leaf occurs twice, alternatives hang at the root, and the slot is
one of them. -/
inductive Stored.WellFormed : Stored → Prop
  | node {root : String} {branches : List (Hop × Bool × Stored)} {leaves : List (String × String)}
      {union : List Stored} {slot : Option Nat} {conjunctive : List Stored}
      (branches_nodup : (branches.map fun x => (x.1, x.2.1, x.2.2.root)).Nodup) (leaves_nodup : leaves.Nodup)
      (roots : ∀ x ∈ union, x.root = root) (slot_lt : ∀ i, slot = some i → i < union.length)
      (below : ∀ x ∈ branches, x.2.2.WellFormed) (inside : ∀ x ∈ union, x.WellFormed)
      (beside : ∀ x ∈ conjunctive, x.WellFormed) :
      WellFormed (node root branches leaves union slot conjunctive)

namespace Body

variable {B : Body}

theorem Tidy.edges_nodup (hB : B.Tidy) : (B.edges.map Prod.fst).Nodup := by
  induction B with
  | nil => exact List.nodup_nil
  | leaf predicate term rest ih => exact ih hB
  | edge e below rest _ ih =>
      refine List.nodup_cons.mpr ⟨fun hmem => ?_, ih hB.2.2⟩
      obtain ⟨x, hx, rfl⟩ := List.mem_map.mp hmem
      exact hB.1 x hx rfl
  | alternative isSlot body rest _ ih => exact ih hB.2.2
  | conjunct own body rest _ ih => exact ih hB.2

theorem Sparse.leaves_nodup (hB : B.Sparse) : B.leaves.Nodup := by
  induction B with
  | nil => exact List.nodup_nil
  | leaf predicate term rest ih => exact List.nodup_cons.mpr ⟨hB.1, ih hB.2⟩
  | edge e below rest _ ih => exact ih hB.2
  | alternative isSlot body rest _ ih => exact ih hB.2
  | conjunct own body rest _ ih => exact ih hB.2

theorem Neat.wellFormed (hB : B.Neat) (root : String) : (B.stored root).WellFormed := by
  induction hsize : sizeOf B using Nat.strong_induction_on generalizing B root with
  | _ size ih =>
      subst hsize
      rw [stored_eq]
      refine .node ?_ hB.sparse.leaves_nodup ?_ ?_ ?_ ?_ ?_
      · have hkeys : (B.edges.map Prod.fst).Pairwise fun e e' => (e.hop, e.isOptional, e.target) ≠
            (e'.hop, e'.isOptional, e'.target) := hB.tidy.edges_nodup.imp fun {e e'} hne heq => hne (by
          cases e
          cases e'
          simpa using heq)
        simpa [List.Nodup, List.pairwise_map, branch, root_stored] using hkeys
      · intro x hx
        obtain ⟨y, -, rfl⟩ := List.mem_map.mp hx
        exact root_stored y.2 root
      · intro i hi
        simpa using (List.findIdx?_eq_some_iff_findIdx_eq.mp hi).1
      · intro x hx
        obtain ⟨y, hy, rfl⟩ := List.mem_map.mp hx
        exact ih _ (sizeOf_edges hy) (hB.of_mem_edges y hy) _ rfl
      · intro x hx
        obtain ⟨y, hy, rfl⟩ := List.mem_map.mp hx
        exact ih _ (sizeOf_tagged hy) (hB.of_mem_tagged y hy) _ rfl
      · intro x hx
        obtain ⟨y, hy, rfl⟩ := List.mem_map.mp hx
        exact ih _ (sizeOf_conjuncts hy) (hB.of_mem_conjuncts y hy) _ rfl

end Body

/-- What building at a root comes to. A construction that fails leaves what it has built. -/
def Body.built (root : String) (steps : List Construction) : Body :=
  steps.foldl (fun body c => (c.run root body).1) .nil

def Pattern.built (root : String) (steps : List Construction) : Pattern := ⟨root, .built root steps⟩

/-- The same steps on a record. -/
def Stored.built (root : String) (steps : List Construction) : Stored :=
  steps.foldl (fun s c => (c.build s).1) (.new root)

def Pattern.stored (p : Pattern) : Stored := p.body.stored p.root

namespace Body

theorem neat_built (root : String) (steps : List Construction) : (built root steps).Neat :=
  List.foldlRecOn steps (fun body c => (c.run root body).1) neat_nil fun _ h c _ => c.run_neat root h

theorem stored_built (root : String) (steps : List Construction) :
    (built root steps).stored root = Stored.built root steps := by
  have hfold : ∀ {body : Body}, body.Neat →
      (steps.foldl (fun body c => (c.run root body).1) body).stored root =
        steps.foldl (fun s c => (c.build s).1) (body.stored root) := by
    induction steps with
    | nil => exact fun _ => rfl
    | cons c rest ih =>
        intro body hbody
        rw [List.foldl_cons, List.foldl_cons, ih (c.run_neat root hbody), c.build_stored root hbody]
  exact hfold neat_nil

end Body

namespace Pattern

theorem merge_of_root (root : String) (B C : Body) :
    merge ⟨root, B⟩ ⟨root, C⟩ = .ok ⟨root, B.merge C⟩ := if_pos rfl

theorem merge_of_ne {p q : Pattern} (h : p.root ≠ q.root) :
    p.merge q = .error (.rootMismatch p.root q.root) := if_neg h

/-- Patterns that were built at one root are a monoid under merging, with what is built without any step as
neutral element, and so are their records. A merge fails exactly at different roots, and then at once: the
record is the same as before. Otherwise the records are merged without a failure, and what they become is in
order on every level. -/
theorem merge_built (root root' : String) (as bs : List Construction) :
    (match (built root as).merge (built root' bs) with
      | .error e => root ≠ root' ∧ e = .rootMismatch root root' ∧
          (Stored.built root as).merge (Stored.built root' bs) = (Stored.built root as, some e)
      | .ok p => root = root' ∧ p.stored.WellFormed ∧
          (Stored.built root as).merge (Stored.built root' bs) = (p.stored, none)) ∧
    (built root as).stored = Stored.built root as ∧
    (built root as).merge (built root []) = .ok (built root as) ∧
    (built root []).merge (built root as) = .ok (built root as) ∧
    (Stored.built root as).merge (Stored.built root []) = (Stored.built root as, none) ∧
    (Stored.built root []).merge (Stored.built root as) = (Stored.built root as, none) ∧
    ∀ cs ds : List Construction, ∃ p q both,
      (built root as).merge (built root cs) = .ok p ∧ (built root cs).merge (built root ds) = .ok q ∧
        p.merge (built root ds) = .ok both ∧ (built root as).merge q = .ok both ∧
        (Stored.built root as).merge (Stored.built root cs) = (p.stored, none) ∧
        (Stored.built root cs).merge (Stored.built root ds) = (q.stored, none) ∧
        p.stored.merge (Stored.built root ds) = (both.stored, none) ∧
        (Stored.built root as).merge q.stored = (both.stored, none) := by
  have ha := Body.neat_built root as
  refine ⟨?_, Body.stored_built root as, merge_of_root root _ .nil, ?_, ?_, ?_, fun cs ds => ?_⟩
  · rw [← Body.stored_built, ← Body.stored_built]
    by_cases h : root = root'
    · subst h
      have hb := Body.neat_built root bs
      rw [show (built root as).merge (built root bs) = _ from merge_of_root root _ _]
      exact ⟨rfl, (ha.merge hb).wellFormed root, Body.stored_merge _ hb root⟩
    · have hroots : ((Body.built root as).stored root).root ≠ ((Body.built root' bs).stored root').root := by
        simpa only [Body.root_stored] using h
      have hmerge := Stored.merge_of_ne hroots
      rw [Body.root_stored, Body.root_stored] at hmerge
      rw [show (built root as).merge (built root' bs) = _ from merge_of_ne h]
      exact ⟨h, rfl, hmerge⟩
  · have hnil := merge_of_root root .nil (.built root as)
    rwa [Body.nil_merge ha] at hnil
  · rw [← Body.stored_built]
    exact Body.stored_merge _ Body.neat_nil root
  · have hnil := Body.stored_merge .nil ha root
    rw [Body.nil_merge ha, Body.stored_built] at hnil
    exact hnil
  · have hc := Body.neat_built root cs
    have hd := Body.neat_built root ds
    have hassoc := Body.merge_assoc (.built root as) hc.tidy hd
    simp only [← Body.stored_built]
    refine ⟨_, _, _, merge_of_root root _ _, merge_of_root root _ _, merge_of_root root _ _, ?_,
      Body.stored_merge _ hc root, Body.stored_merge _ hd root, Body.stored_merge _ hd root, ?_⟩
    · rw [hassoc]
      exact merge_of_root root _ _
    · rw [hassoc]
      exact Body.stored_merge _ (hc.merge hd) root

end Pattern
end EntityGraph
