import EntityGraph.Proofs.Branch.Paths
import EntityGraph.Proofs.Naming.Scopes
import Mathlib.Data.List.Perm.Basic
import Mathlib.Data.List.Range

/-!
# Forests in an arena

A forest can be kept in an arena: one record for each branch, with the handles of the branches below it in the
order in which they were added, and an index that finds them by what they ask for. To graft one tree onto
another, the other one is walked along its own handles.

In every tree that is built by such operations, the handles stand for different paths, a branch has a larger
handle than the branch that it hangs below, and what is read from the records along the handles is a forest.
Every operation adds paths to this forest, and merging trees is merging their forests.
-/
namespace EntityGraph

open Forest

structure BranchNode where
  /-- What is asked for; nothing at the root. -/
  branch : Option Branch
  children : List Nat := []
  index : List (Branch × Nat) := []

structure BranchTree where
  nodes : List BranchNode := [({ branch := none } : BranchNode)]

namespace BranchTree

/-- One more branch below a node. -/
def extended (tree : BranchTree) (parent : Nat) (b : Branch) : BranchTree where
  nodes := (tree.nodes ++ [({ branch := some b } : BranchNode)]).modify parent fun node =>
    { node with
      children := node.children ++ [tree.nodes.length]
      index := node.index ++ [(b, tree.nodes.length)] }

/-- The node for a branch below another node, if there is one to start from. -/
def branch (tree : BranchTree) (parent : Nat) (b : Branch) : Option (Nat × BranchTree) :=
  match tree.nodes[parent]? with
  | none => none
  | some node =>
    match node.index.lookup b with
    | some child => some (child, tree)
    | none => some (tree.nodes.length, tree.extended parent b)

def branchPath (tree : BranchTree) (parent : Nat) : List Branch → Option (Nat × BranchTree)
  | [] => some (parent, tree)
  | b :: path => do
    let (child, tree) ← tree.branch parent b
    tree.branchPath child path

/-- The number of branches; the root does not count. -/
def size (tree : BranchTree) : Nat := tree.nodes.length - 1

/-- The walk that copies branches of another tree, those with the given handles and all below them, to
below a node. -/
inductive Grafts (other : BranchTree) : BranchTree → Nat → List Nat → BranchTree → Prop
  | nil {tree : BranchTree} {place : Nat} : Grafts other tree place [] tree
  | cons {tree tree₁ tree₂ tree₃ : BranchTree} {place c target : Nat} {cs : List Nat}
      {node : BranchNode} {b : Branch} (hnode : other.nodes[c]? = some node) (hb : node.branch = some b)
      (hbranch : tree.branch place b = some (target, tree₁))
      (hbelow : Grafts other tree₁ target node.children tree₂)
      (hrest : Grafts other tree₂ place cs tree₃) : Grafts other tree place (c :: cs) tree₃

/-- The depth-first walk from some handles: the forest that is read and the handles that are visited. -/
inductive Reads (tree : BranchTree) : List Nat → Forest → List Nat → Prop
  | nil : Reads tree [] .nil []
  | cons {c : Nat} {cs visited visited' : List Nat} {node : BranchNode} {b : Branch} {below rest : Forest}
      (hnode : tree.nodes[c]? = some node) (hb : node.branch = some b)
      (hbelow : Reads tree node.children below visited) (hrest : Reads tree cs rest visited') :
      Reads tree (c :: cs) (.cons b below rest) (c :: visited ++ visited')

/-- The trees that building leads to. -/
inductive Built : BranchTree → Prop
  | new : Built {}
  | branch {tree tree' : BranchTree} {parent child : Nat} {b : Branch} (h : Built tree)
      (hbranch : tree.branch parent b = some (child, tree')) : Built tree'
  | branchPath {tree tree' : BranchTree} {parent child : Nat} {path : List Branch} (h : Built tree)
      (hpath : tree.branchPath parent path = some (child, tree')) : Built tree'
  /-- Everything below a node of another tree is grafted. Merging is grafting from root to root. -/
  | graft {tree other tree' : BranchTree} {place start : Nat} {node place' : BranchNode} (h : Built tree)
      (hother : Built other) (hplace : tree.nodes[place]? = some place')
      (hnode : other.nodes[start]? = some node)
      (hgrafts : other.Grafts tree place node.children tree') : Built tree'

variable {tree tree' other : BranchTree} {shown : List (List Branch)} {i c : Nat} {node : BranchNode}
  {p q : List Branch} {b : Branch} {F G : Forest} {visited : List Nat}

/-- A record shows what hangs at the end of a path. -/
structure Records (shown : List (List Branch)) (node : BranchNode) (p : List Branch) : Prop where
  branch : node.branch = p.getLast?
  children : node.children.map (fun c => shown[c]?) = (ends shown p).map fun b => some (p ++ [b])
  index : ∀ b c, node.index.lookup b = some c ↔ shown[c]? = some (p ++ [b])

/-- The handles stand for different paths; that of the root for the empty one. -/
structure Shows (tree : BranchTree) (shown : List (List Branch)) : Prop where
  length : tree.nodes.length = shown.length
  nodup : shown.Nodup
  root : shown[0]? = some []
  parent : ∀ (c : Nat) (p : List Branch) (b : Branch), shown[c]? = some (p ++ [b]) → ∃ i < c,
    shown[i]? = some p
  records : ∀ (i : Nat) (node : BranchNode) (p : List Branch), tree.nodes[i]? = some node →
    shown[i]? = some p → Records shown node p

theorem shows_new : Shows {} [[]] where
  length := rfl
  nodup := List.nodup_singleton _
  root := rfl
  parent c p b h := by
    cases c <;> simp at h
  records i node p hnode hp := by
    cases i with
    | zero =>
        obtain rfl : [] = p := by simpa using hp
        obtain rfl : ({ branch := none } : BranchNode) = node := by simpa using hnode
        refine ⟨rfl, rfl, fun b c => ?_⟩
        cases c <;> simp
    | succ i => simp at hp

theorem Shows.exists_node (h : tree.Shows shown) (hp : shown[i]? = some p) :
    ∃ node, tree.nodes[i]? = some node ∧ Records shown node p := by
  obtain ⟨hlt, -⟩ := List.getElem?_eq_some_iff.mp hp
  have hnode := List.getElem?_eq_getElem (h.length ▸ hlt : i < tree.nodes.length)
  exact ⟨_, hnode, h.records _ _ _ hnode hp⟩

theorem Shows.exists_path (h : tree.Shows shown) (hnode : tree.nodes[i]? = some node) :
    ∃ p, shown[i]? = some p ∧ Records shown node p := by
  obtain ⟨hlt, -⟩ := List.getElem?_eq_some_iff.mp hnode
  have hp := List.getElem?_eq_getElem (h.length ▸ hlt : i < shown.length)
  exact ⟨_, hp, h.records _ _ _ hnode hp⟩

theorem Shows.eq_of_path (h : tree.Shows shown) (hi : shown[i]? = some p)
    (hc : shown[c]? = some p) : i = c := by
  obtain ⟨hlt, heq⟩ := List.getElem?_eq_some_iff.mp hi
  obtain ⟨hlt', heq'⟩ := List.getElem?_eq_some_iff.mp hc
  exact (h.nodup.getElem_inj_iff).mp (heq.trans heq'.symm)

theorem Shows.mem_of_append (h : tree.Shows shown) (hmem : p ++ q ∈ shown) : p ∈ shown := by
  induction q using List.reverseRecOn with
  | nil => simpa using hmem
  | append_singleton q b ih =>
      obtain ⟨c, hc⟩ := List.mem_iff_getElem?.mp (List.append_assoc p q [b] ▸ hmem)
      obtain ⟨i, -, hi⟩ := h.parent c _ b hc
      exact ih (List.mem_of_getElem? hi)

theorem Records.of_mem_children (h : Records shown node p) (hc : c ∈ node.children) :
    ∃ b ∈ ends shown p, shown[c]? = some (p ++ [b]) := by
  have hmem : shown[c]? ∈ node.children.map fun c => shown[c]? := List.mem_map_of_mem hc
  rw [h.children] at hmem
  obtain ⟨b, hb, heq⟩ := List.mem_map.mp hmem
  exact ⟨b, hb, heq.symm⟩

theorem Records.children_append (h : Records shown node p) (added : List Branch) :
    node.children.map (fun c => (shown ++ [added])[c]?) = (ends shown p).map fun b => some (p ++ [b]) := by
  rw [← h.children]
  refine List.map_congr_left fun c hc => ?_
  obtain ⟨b, -, hb⟩ := h.of_mem_children hc
  exact List.getElem?_append_left (List.getElem?_eq_some_iff.mp hb).1

theorem Records.append (h : Records shown node p) (hp : q ≠ p) (b : Branch) :
    Records (shown ++ [q ++ [b]]) node p where
  branch := h.branch
  children := by
    rw [h.children_append, ends_append, ends_singleton, if_neg hp, List.append_nil]
  index b' c := by
    rw [h.index, getElem?_append_singleton]
    exact ⟨Or.inl, fun hor => hor.resolve_right fun heq => hp (List.append_inj_left' heq.2 rfl).symm⟩

theorem Records.extended (h : Records shown node p) (hnone : node.index.lookup b = none)
    (hc : c = shown.length) :
    Records (shown ++ [p ++ [b]])
      { node with
        children := node.children ++ [c]
        index := node.index ++ [(b, c)] } p where
  branch := h.branch
  children := by
    rw [List.map_append, h.children_append, ends_append, ends_singleton, if_pos rfl, List.map_append]
    simp [hc]
  index b' c' := by
    rw [lookup_append_singleton, getElem?_append_singleton, ← h.index]
    by_cases hb : b' = b
    · subst hb
      simp [hnone, hc, eq_comm]
    · simp [hb]

theorem Shows.records_added (h : tree.Shows shown) (hnew : p ++ [b] ∉ shown) :
    Records (shown ++ [p ++ [b]]) { branch := some b } (p ++ [b]) where
  branch := by simp
  children := by
    have hends : ends (shown ++ [p ++ [b]]) (p ++ [b]) = [] := by
      have hshown : ends shown (p ++ [b]) = [] := List.eq_nil_iff_forall_not_mem.mpr fun x hx =>
        hnew (h.mem_of_append (mem_ends.mp hx))
      have hne : p ≠ p ++ [b] := fun heq => by simpa using congrArg List.length heq
      rw [ends_append, hshown, ends_singleton, if_neg hne]
      rfl
    rw [hends]
    rfl
  index b' c := by
    have hne : p ++ [b] ++ [b'] ≠ p ++ [b] := fun heq => by simpa using congrArg List.length heq
    simp only [List.lookup_nil, reduceCtorEq, false_iff, getElem?_append_singleton, not_or, not_and]
    exact ⟨fun hc => hnew (h.mem_of_append (List.mem_of_getElem? hc)), fun _ => hne⟩

theorem Shows.branch (h : tree.Shows shown) (hp : shown[i]? = some p) (b : Branch) :
    ∃ c tree', tree.branch i b = some (c, tree') ∧ tree'.Shows (addPath shown (p ++ [b])) ∧
      (addPath shown (p ++ [b]))[c]? = some (p ++ [b]) := by
  obtain ⟨node, hnode, hrecords⟩ := h.exists_node hp
  cases hindex : node.index.lookup b with
  | some c =>
      have hc := (hrecords.index b c).mp hindex
      rw [addPath, if_pos (List.mem_of_getElem? hc)]
      exact ⟨c, tree, by simp only [BranchTree.branch, hnode, hindex], h, hc⟩
  | none =>
      have hnew : p ++ [b] ∉ shown := fun hmem => by
        obtain ⟨c, hc⟩ := List.mem_iff_getElem?.mp hmem
        simp [(hrecords.index b c).mpr hc] at hindex
      rw [addPath, if_neg hnew]
      refine ⟨tree.nodes.length, tree.extended i b, by simp only [BranchTree.branch, hnode, hindex], ?_,
        getElem?_append_singleton.mpr (Or.inr ⟨h.length, rfl⟩)⟩
      have hnodup := nodup_addPath h.nodup (p ++ [b])
      rw [addPath, if_neg hnew] at hnodup
      refine ⟨by simp [BranchTree.extended, h.length], hnodup, ?_, fun c q b' hc => ?_,
        fun j node' q hnode' hq => ?_⟩
      · exact getElem?_append_singleton.mpr (Or.inl h.root)
      · obtain hc | ⟨rfl, heq⟩ := getElem?_append_singleton.mp hc
        · obtain ⟨j, hlt, hj⟩ := h.parent c q b' hc
          exact ⟨j, hlt, getElem?_append_singleton.mpr (Or.inl hj)⟩
        · obtain rfl : q = p := List.append_inj_left' heq rfl
          exact ⟨i, (List.getElem?_eq_some_iff.mp hp).1, getElem?_append_singleton.mpr (Or.inl hp)⟩
      · rw [BranchTree.extended, List.getElem?_modify] at hnode'
        obtain ⟨before, hbefore, rfl⟩ := Option.map_eq_some_iff.mp hnode'
        obtain hq | ⟨rfl, rfl⟩ := getElem?_append_singleton.mp hq
        · obtain hbefore | ⟨rfl, -⟩ := getElem?_append_singleton.mp hbefore
          · by_cases hij : i = j
            · subst hij
              obtain rfl : p = q := Option.some.inj (hp.symm.trans hq)
              obtain rfl : node = before := Option.some.inj (hnode.symm.trans hbefore)
              rw [if_pos rfl]
              exact hrecords.extended hindex h.length
            · have hne : p ≠ q := fun heq => hij (h.eq_of_path hp (heq ▸ hq))
              simpa only [if_neg hij] using (h.records j before q hbefore hq).append hne b
          · rw [h.length] at hq
            simp at hq
        · have hlt : i < shown.length := (List.getElem?_eq_some_iff.mp hp).1
          obtain hbefore | ⟨-, rfl⟩ := getElem?_append_singleton.mp hbefore
          · rw [← h.length] at hbefore
            simp at hbefore
          · rw [if_neg hlt.ne]
            exact h.records_added hnew

/-- Branches of a forest are added below a node, depth first. -/
def add : Forest → BranchTree → Nat → Option BranchTree
  | .nil, tree, _ => some tree
  | .cons b below rest, tree, place => do
    let (target, tree) ← tree.branch place b
    let tree ← add below tree target
    add rest tree place

theorem getElem?_foldl_addPath (added : List (List Branch)) (h : shown[i]? = some p) :
    (added.foldl addPath shown)[i]? = some p := by
  induction added generalizing shown with
  | nil => exact h
  | cons q rest ih =>
      refine ih ?_
      unfold addPath
      split
      · exact h
      · exact getElem?_append_singleton.mpr (Or.inl h)

/-- What is added below a node are the paths of the forest, behind that of the node. -/
theorem Shows.add (h : tree.Shows shown) (hp : shown[i]? = some p) (G : Forest) :
    ∃ tree', add G tree i = some tree' ∧ tree'.Shows ((G.paths.map (p ++ ·)).foldl addPath shown) := by
  induction G generalizing tree shown i p with
  | nil => exact ⟨tree, rfl, h⟩
  | cons b below rest ihBelow ih =>
      obtain ⟨c, tree₁, hbranch, h₁, hc⟩ := h.branch hp b
      obtain ⟨tree₂, hadd, h₂⟩ := ihBelow h₁ hc
      have hp₁ : (addPath shown (p ++ [b]))[i]? = some p := getElem?_foldl_addPath [p ++ [b]] hp
      obtain ⟨tree₃, hrest, h₃⟩ := ih h₂ (getElem?_foldl_addPath _ hp₁)
      refine ⟨tree₃,
        by simp only [BranchTree.add, hbranch, hadd, hrest, Option.bind_eq_bind, Option.bind_some], ?_⟩
      simpa [paths, Function.comp_def, List.foldl_append] using h₃

theorem Shows.branchPath (h : tree.Shows shown) (hp : shown[i]? = some p) (path : List Branch) :
    ∃ c tree', tree.branchPath i path = some (c, tree') ∧
      tree'.Shows (((ofPath path .nil).paths.map (p ++ ·)).foldl addPath shown) ∧
      (((ofPath path .nil).paths.map (p ++ ·)).foldl addPath shown)[c]? = some (p ++ path) := by
  induction path generalizing tree shown i p with
  | nil => exact ⟨i, tree, rfl, h, by simpa [ofPath, paths] using hp⟩
  | cons b path ih =>
      obtain ⟨c, tree₁, hbranch, h₁, hc⟩ := h.branch hp b
      obtain ⟨c', tree₂, hpath, h₂, hc'⟩ := ih h₁ hc
      have hpaths : (ofPath (b :: path) .nil).paths.map (p ++ ·) =
          (p ++ [b]) :: (ofPath path .nil).paths.map (p ++ [b] ++ ·) := by
        simp [ofPath, paths, Function.comp_def]
      rw [hpaths, List.foldl_cons]
      refine ⟨c', tree₂, ?_, h₂, by simpa using hc'⟩
      simp only [BranchTree.branchPath, hbranch, hpath, Option.bind_eq_bind, Option.bind_some]

theorem Reads.unique {cs visited visited' : List Nat} (h : tree.Reads cs F visited)
    (h' : tree.Reads cs G visited') : F = G ∧ visited = visited' := by
  induction h generalizing G visited' with
  | nil =>
      cases h' with
      | nil => exact ⟨rfl, rfl⟩
  | cons hnode hb _ _ ihBelow ih =>
      cases h' with
      | cons hnode' hb' hbelow' hrest' =>
          obtain rfl := Option.some.inj (hnode.symm.trans hnode')
          obtain rfl := Option.some.inj (hb.symm.trans hb')
          obtain ⟨rfl, rfl⟩ := ihBelow hbelow'
          obtain ⟨rfl, rfl⟩ := ih hrest'
          exact ⟨rfl, rfl⟩

theorem Reads.grafts {cs : List Nat} (h : other.Reads cs G visited) (hadd : add G tree i = some tree') :
    other.Grafts tree i cs tree' := by
  induction h generalizing tree tree' i with
  | nil =>
      obtain rfl := Option.some.inj hadd
      exact .nil
  | @cons c cs _ _ node b below rest hnode hb _ _ ihBelow ih =>
      simp only [BranchTree.add, Option.bind_eq_bind] at hadd
      obtain ⟨⟨target, tree₁⟩, hbranch, hadd⟩ := Option.bind_eq_some_iff.mp hadd
      obtain ⟨tree₂, hbelow, hrest⟩ := Option.bind_eq_some_iff.mp hadd
      exact .cons hnode hb hbranch (ihBelow hbelow) (ih hrest)

theorem Grafts.unique {tree₁ tree₂ : BranchTree} {cs : List Nat} (h : other.Grafts tree i cs tree₁)
    (h' : other.Grafts tree i cs tree₂) : tree₁ = tree₂ := by
  induction h generalizing tree₂ with
  | nil =>
      cases h' with
      | nil => rfl
  | cons hnode hb hbranch _ _ ihBelow ih =>
      cases h' with
      | cons hnode' hb' hbranch' hbelow' hrest' =>
          obtain rfl := Option.some.inj (hnode.symm.trans hnode')
          obtain rfl := Option.some.inj (hb.symm.trans hb')
          obtain ⟨rfl, rfl⟩ := Prod.mk.inj (Option.some.inj (hbranch.symm.trans hbranch'))
          obtain rfl := ihBelow hbelow'
          exact ih hrest'

/-- What is read at the end of a path: the paths that go on from there, each of them visited at its handle. -/
structure ReadsAt (shown : List (List Branch)) (p : List Branch) (bs : List Branch) (F : Forest)
    (visited : List Nat) : Prop where
  distinct : F.Distinct
  top : F.children [] = bs
  deeper : ∀ b ∈ bs, ∀ r, F.children (b :: r) = ends shown (p ++ b :: r)
  visited : visited.map (fun c => shown[c]?) = F.paths.map fun q => some (p ++ q)

theorem Shows.ends_of_not_mem (h : tree.Shows shown) (hb : b ∉ ends shown p) (r : List Branch) :
    ends shown (p ++ b :: r) = [] := by
  refine List.eq_nil_iff_forall_not_mem.mpr fun x hx => hb (mem_ends.mpr ?_)
  have hmem := mem_ends.mp hx
  exact h.mem_of_append (q := r ++ [x]) (by simpa using hmem)

theorem ReadsAt.children (hat : ReadsAt shown p (ends shown p) F visited) (h : tree.Shows shown)
    (r : List Branch) : F.children r = ends shown (p ++ r) := by
  cases r with
  | nil => rw [hat.top, List.append_nil]
  | cons b r =>
      by_cases hb : b ∈ ends shown p
      · exact hat.deeper b hb r
      · rw [h.ends_of_not_mem hb, children_cons, under_of_not_mem (hat.top ▸ hb)]
        rfl

/-- Reading ends, since branches have larger handles than those they hang below. -/
theorem Shows.reads (h : tree.Shows shown) (hp : shown[i]? = some p) (hnode : tree.nodes[i]? = some node) :
    ∃ F visited, tree.Reads node.children F visited ∧ ReadsAt shown p (ends shown p) F visited := by
  induction hrank : shown.length - i using Nat.strong_induction_on generalizing i p node with
  | _ rank ih =>
      subst hrank
      have hrecords := h.records i node p hnode hp
      -- The children are read one after the other.
      have hall : ∀ (cs : List Nat) (bs : List Branch), bs.Nodup →
          cs.map (fun c => shown[c]?) = bs.map (fun b => some (p ++ [b])) →
          ∃ F visited, tree.Reads cs F visited ∧ ReadsAt shown p bs F visited := by
        intro cs
        induction cs with
        | nil =>
            intro bs _ hmap
            obtain rfl : bs = [] := by simpa using hmap.symm
            exact ⟨.nil, [], .nil, trivial, rfl, by simp, rfl⟩
        | cons c cs ihRest =>
            intro bs hnodup hmap
            obtain _ | ⟨b, bs⟩ := bs
            · simp at hmap
            · obtain ⟨hc, hrest⟩ := List.cons.inj hmap
              obtain ⟨hnot, hbs⟩ := List.nodup_cons.mp hnodup
              obtain ⟨rest, visited', hreads', hat'⟩ := ihRest bs hbs hrest
              obtain ⟨child, hchild, hrecords'⟩ := h.exists_node hc
              obtain ⟨i', hlt, hi'⟩ := h.parent c p b hc
              obtain rfl := h.eq_of_path hi' hp
              have hbound : c < shown.length := (List.getElem?_eq_some_iff.mp hc).1
              obtain ⟨below, visited, hreads, hat⟩ := ih (shown.length - c) (by omega) hc hchild rfl
              have hb : child.branch = some b := hrecords'.branch.trans (by simp)
              refine ⟨_, _, .cons hchild hb hreads hreads', ⟨hat'.top ▸ hnot, hat.distinct, hat'.distinct⟩,
                congrArg _ hat'.top, fun b' hb' r => ?_, ?_⟩
              · by_cases heq : b = b'
                · subst heq
                  simpa [children] using hat.children h r
                · have hmem := (List.mem_cons.mp hb').resolve_left (Ne.symm heq)
                  simpa [children, heq] using hat'.deeper b' hmem r
              · simp [paths, hc, hat.visited, hat'.visited, Function.comp_def]
      exact hall node.children (ends shown p) (nodup_ends h.nodup p) hrecords.children

/-- What is read from the root. -/
def Holds (tree : BranchTree) (F : Forest) : Prop :=
  ∃ root visited, tree.nodes[0]? = some root ∧ tree.Reads root.children F visited

theorem Holds.unique (h : tree.Holds F) (h' : tree.Holds G) : F = G := by
  obtain ⟨root, visited, hroot, hreads⟩ := h
  obtain ⟨root', visited', hroot', hreads'⟩ := h'
  obtain rfl := Option.some.inj (hroot.symm.trans hroot')
  exact (hreads.unique hreads').1

theorem Shows.holds (h : tree.Shows shown) :
    ∃ F, tree.Holds F ∧ F.Distinct ∧ ∀ path, F.children path = ends shown path := by
  obtain ⟨root, hroot, -⟩ := h.exists_node h.root
  obtain ⟨F, visited, hreads, hat⟩ := h.reads h.root hroot
  exact ⟨F, ⟨root, visited, hroot, hreads⟩, hat.distinct, hat.children h⟩

theorem Shows.of_holds (h : tree.Shows shown) (hF : tree.Holds F) :
    F.Distinct ∧ ∀ path, F.children path = ends shown path := by
  obtain ⟨F', hF', hdistinct, hchildren⟩ := h.holds
  obtain rfl := hF.unique hF'
  exact ⟨hdistinct, hchildren⟩

theorem paths_ofPath (p : List Branch) (G : Forest) :
    (ofPath p G).paths = (ofPath p .nil).paths ++ G.paths.map (p ++ ·) := by
  induction p with
  | nil => simp [ofPath, paths]
  | cons b p ih =>
      have hcons : ∀ H : Forest, (ofPath (b :: p) H).paths = [b] ::
        (ofPath p H).paths.map (b :: ·) := fun H => by
        simp [ofPath, paths]
      rw [hcons, hcons, ih]
      simp [Function.comp_def]

theorem Shows.holds_added (h : tree.Shows shown) (hF : tree.Holds F) (hp : p ∈ shown) (hG : G.Distinct)
    (h' : tree'.Shows ((G.paths.map (p ++ ·)).foldl addPath shown)) : tree'.Holds (F.merge (ofPath p G)) := by
  obtain ⟨hdistinct, hchildren⟩ := h.of_holds hF
  obtain ⟨F', hF', hdistinct', hchildren'⟩ := h'.holds
  have hpath := distinct_ofPath p hG
  have hnodup : (G.paths.map (p ++ ·)).Nodup := hG.nodup_paths.map fun _ _ heq => List.append_cancel_left heq
  have hnil : [] ∉ G.paths.map (p ++ ·) := fun hmem => by
    obtain ⟨r, hr, heq⟩ := List.mem_map.mp hmem
    exact nil_not_mem_paths G ((List.append_eq_nil_iff.mp heq).2 ▸ hr)
  have heq : F' = F.merge (ofPath p G) := hdistinct'.ext (hdistinct.merge hpath) fun path => by
    -- The way to the node is there already.
    have hway : (ends (ofPath p .nil).paths path).filter (· ∉ ends shown path) = [] := by
      refine List.filter_eq_nil_iff.mpr fun b hb => ?_
      obtain ⟨-, hprefix⟩ | ⟨r, hr, -⟩ := mem_paths_ofPath.mp (mem_ends.mp hb)
      · obtain ⟨rest, rfl⟩ := hprefix
        simpa using mem_ends.mpr (h.mem_of_append hp)
      · simp [paths] at hr
    rw [hchildren', ends_foldl_addPath hnodup hnil, children_merge hpath, hchildren,
      ← hpath.ends_paths, paths_ofPath, ends_append, List.filter_append, hway, List.nil_append]
  exact heq ▸ hF'

/-- Paths were added at the end of a path: exactly those, and after what was there, in their order. -/
structure Adds (F : Forest) (p : List Branch) (G F' : Forest) : Prop where
  paths : ∀ q, q ∈ F'.paths ↔ q ∈ F.paths ∨ ∃ r ∈ G.paths, q = p ++ r
  below : ∀ r, F'.children (p ++ r) = F.children (p ++ r) ++ (G.children r).filter (· ∉ F.children (p ++ r))
  elsewhere : ∀ q, ¬ p <+: q → F'.children q = F.children q

theorem children_ofPath (p : List Branch) (G : Forest) (r : List Branch) :
    (ofPath p G).children (p ++ r) = G.children r := by
  induction p with
  | nil => rfl
  | cons b p ih => simpa [ofPath, children] using ih

theorem adds_merge (hF : F.Distinct) (hG : G.Distinct) (hp : ∀ q, q ≠ [] → q <+: p → q ∈ F.paths) :
    Adds F p G (F.merge (ofPath p G)) where
  paths q := by
    rw [hF.mem_paths_merge (distinct_ofPath p hG), mem_paths_ofPath]
    constructor
    · rintro (hq | ⟨hne, hprefix⟩ | hq)
      · exact Or.inl hq
      · exact Or.inl (hp q hne hprefix)
      · exact Or.inr hq
    · exact fun hor => hor.imp_right Or.inr
  below r := by rw [children_merge (distinct_ofPath p hG), children_ofPath]
  elsewhere q hq := by
    rw [children_merge (distinct_ofPath p hG)]
    refine List.append_right_eq_self.mpr (List.filter_eq_nil_iff.mpr fun b hb => ?_)
    obtain ⟨-, hprefix⟩ | ⟨r, hr, heq⟩ := mem_paths_ofPath.mp ((distinct_ofPath p hG).mem_paths.mpr hb)
    · simpa using hF.mem_paths.mp (hp _ (by simp) hprefix)
    · obtain rfl | ⟨r, x, rfl⟩ := List.eq_nil_or_concat' r
      · exact absurd hr (nil_not_mem_paths G)
      · rw [← List.append_assoc] at heq
        exact absurd ⟨r, (List.append_inj_left' heq rfl).symm⟩ hq

theorem Shows.prefix_mem (h : tree.Shows shown) (hF : tree.Holds F) (hp : p ∈ shown) :
    ∀ q, q ≠ [] → q <+: p → q ∈ F.paths := by
  rintro q hne ⟨rest, rfl⟩
  obtain ⟨hdistinct, hchildren⟩ := h.of_holds hF
  obtain rfl | ⟨q, b, rfl⟩ := List.eq_nil_or_concat' q
  · exact absurd rfl hne
  · rw [hdistinct.mem_paths, hchildren, mem_ends]
    exact h.mem_of_append hp

theorem Built.shows (h : tree.Built) : ∃ shown, tree.Shows shown := by
  induction h with
  | new => exact ⟨_, shows_new⟩
  | @branch tree tree' parent child b _ hbranch ih =>
      obtain ⟨shown, hshows⟩ := ih
      cases hnode : tree.nodes[parent]? with
      | none => simp [BranchTree.branch, hnode] at hbranch
      | some node =>
          obtain ⟨p, hp, -⟩ := hshows.exists_path hnode
          obtain ⟨c, tree₁, heq, hshows', -⟩ := hshows.branch hp b
          obtain ⟨-, rfl⟩ := Prod.mk.inj (Option.some.inj (heq.symm.trans hbranch))
          exact ⟨_, hshows'⟩
  | @branchPath tree tree' parent child path _ hpath ih =>
      obtain ⟨shown, hshows⟩ := ih
      cases hnode : tree.nodes[parent]? with
      | none =>
          cases path with
          | nil =>
              obtain ⟨-, rfl⟩ := Prod.mk.inj (Option.some.inj hpath)
              exact ⟨shown, hshows⟩
          | cons b path => simp [BranchTree.branchPath, BranchTree.branch, hnode] at hpath
      | some node =>
          obtain ⟨p, hp, -⟩ := hshows.exists_path hnode
          obtain ⟨c, tree₁, heq, hshows', -⟩ := hshows.branchPath hp path
          obtain ⟨-, rfl⟩ := Prod.mk.inj (Option.some.inj (heq.symm.trans hpath))
          exact ⟨_, hshows'⟩
  | graft _ _ hplace hnode hgrafts ih ihOther =>
      obtain ⟨shown, hshows⟩ := ih
      obtain ⟨shown', hshows'⟩ := ihOther
      obtain ⟨p, hp, -⟩ := hshows.exists_path hplace
      obtain ⟨p', hp', -⟩ := hshows'.exists_path hnode
      obtain ⟨G, visited, hreads, -⟩ := hshows'.reads hp' hnode
      obtain ⟨tree₁, hadd, hadded⟩ := hshows.add hp G
      obtain rfl := (hreads.grafts hadd).unique hgrafts
      exact ⟨_, hadded⟩

/-- The second branch hangs below the first node. -/
def Below (tree : BranchTree) (i c : Nat) : Prop :=
  ∃ node : BranchNode, tree.nodes[i]? = some node ∧ c ∈ node.children

/-- The tree is an ordered set of paths. -/
structure Ordered (tree : BranchTree) (F : Forest) : Prop where
  /-- No two branches below a node ask for the same. -/
  distinct : ∀ (i : Nat) (node : BranchNode), tree.nodes[i]? = some node → node.children.Nodup ∧
    (node.children.map fun c => (tree.nodes[c]?).bind BranchNode.branch).Nodup
  parent : ∀ c, 0 < c → c < tree.nodes.length → ∃! i, tree.Below i c
  /-- The walk from the root visits each branch once. -/
  visits : ∃ root visited, tree.nodes[0]? = some root ∧ tree.Reads root.children F visited ∧
    visited.Perm (List.range' 1 tree.size)
  nodup : F.paths.Nodup
  size : F.paths.length = tree.size

theorem Shows.below_iff (h : tree.Shows shown) (hp : shown[i]? = some p) :
    tree.Below i c ↔ ∃ b, shown[c]? = some (p ++ [b]) := by
  obtain ⟨node, hnode, hrecords⟩ := h.exists_node hp
  constructor
  · rintro ⟨node', hnode', hc⟩
    obtain rfl := Option.some.inj (hnode.symm.trans hnode')
    obtain ⟨b, -, hb⟩ := hrecords.of_mem_children hc
    exact ⟨b, hb⟩
  · rintro ⟨b, hb⟩
    have hmem : some (p ++ [b]) ∈ node.children.map fun c => shown[c]? := by
      rw [hrecords.children]
      exact List.mem_map_of_mem (mem_ends.mpr (List.mem_of_getElem? hb))
    obtain ⟨c', hc', heq⟩ := List.mem_map.mp hmem
    obtain rfl := h.eq_of_path hb heq
    exact ⟨node, hnode, hc'⟩

theorem Shows.exists_last (h : tree.Shows shown) (hc : c < shown.length) (hpos : 0 < c) :
    ∃ p b, shown[c]? = some (p ++ [b]) := by
  have hpath := List.getElem?_eq_getElem hc
  obtain hnil | ⟨p, b, heq⟩ := List.eq_nil_or_concat' shown[c]
  · rw [hnil] at hpath
    exact absurd (h.eq_of_path h.root hpath) hpos.ne
  · exact ⟨p, b, heq ▸ hpath⟩

theorem Shows.distinct (h : tree.Shows shown) (hnode : tree.nodes[i]? = some node) :
    node.children.Nodup ∧ (node.children.map fun c => (tree.nodes[c]?).bind BranchNode.branch).Nodup := by
  obtain ⟨p, hp, hrecords⟩ := h.exists_path hnode
  have hnodup := nodup_ends h.nodup p
  constructor
  · refine List.Nodup.of_map (fun c => shown[c]?) ?_
    rw [hrecords.children]
    exact hnodup.map fun _ _ heq => by simpa using heq
  · have hmap : (node.children.map fun c => (tree.nodes[c]?).bind BranchNode.branch) =
        (node.children.map fun c => shown[c]?).map fun q => q.bind List.getLast? := by
      rw [List.map_map]
      refine List.map_congr_left fun c hc => ?_
      obtain ⟨b, -, hb⟩ := hrecords.of_mem_children hc
      obtain ⟨child, hchild, hrecords'⟩ := h.exists_node hb
      simp [hchild, hb, hrecords'.branch]
    rw [hmap, hrecords.children, List.map_map]
    exact hnodup.map fun _ _ heq => by simpa using heq

theorem Shows.ordered (h : tree.Shows shown) (hF : tree.Holds F) : tree.Ordered F := by
  obtain ⟨hdistinct, hchildren⟩ := h.of_holds hF
  obtain ⟨root, hroot, -⟩ := h.exists_node h.root
  obtain ⟨F', visited, hreads, hat⟩ := h.reads h.root hroot
  obtain rfl := hF.unique ⟨root, visited, hroot, hreads⟩
  have hvisited : visited.map (fun c => shown[c]?) = F.paths.map some := by simpa using hat.visited
  have hnodup : visited.Nodup := by
    refine List.Nodup.of_map (fun c => shown[c]?) ?_
    rw [hvisited]
    exact hdistinct.nodup_paths.map fun _ _ heq => Option.some.inj heq
  have hmem : ∀ c, c ∈ visited ↔ 0 < c ∧ c < shown.length := fun c => by
    constructor
    · intro hc
      have hpath : shown[c]? ∈ visited.map fun c => shown[c]? := List.mem_map_of_mem hc
      rw [hvisited] at hpath
      obtain ⟨q, hq, heq⟩ := List.mem_map.mp hpath
      refine ⟨Nat.pos_of_ne_zero fun hzero => ?_, (List.getElem?_eq_some_iff.mp heq.symm).1⟩
      subst hzero
      obtain rfl : [] = q := Option.some.inj (h.root.symm.trans heq.symm)
      exact nil_not_mem_paths F hq
    · rintro ⟨hpos, hlt⟩
      obtain ⟨p, b, hb⟩ := h.exists_last hlt hpos
      have hq : p ++ [b] ∈ F.paths := by
        rw [hdistinct.mem_paths, hchildren, mem_ends]
        exact List.mem_of_getElem? hb
      have hpath : some (p ++ [b]) ∈ visited.map fun c => shown[c]? := hvisited ▸ List.mem_map_of_mem hq
      obtain ⟨c', hc', heq⟩ := List.mem_map.mp hpath
      exact h.eq_of_path hb heq ▸ hc'
  have hperm : visited.Perm (List.range' 1 tree.size) := by
    refine (List.perm_ext_iff_of_nodup hnodup List.nodup_range').mpr fun c => ?_
    rw [hmem, List.mem_range'_1, size, h.length]
    omega
  refine ⟨fun i node => h.distinct, fun c hpos hlt => ?_, ⟨root, visited, hroot, hreads, hperm⟩,
    hdistinct.nodup_paths, ?_⟩
  · obtain ⟨p, b, hb⟩ := h.exists_last (h.length ▸ hlt) hpos
    obtain ⟨i, -, hi⟩ := h.parent c p b hb
    refine ⟨i, (h.below_iff hi).mpr ⟨b, hb⟩, fun j hj => ?_⟩
    obtain ⟨node, hnode, -⟩ := id hj
    obtain ⟨q, hq, -⟩ := h.exists_path hnode
    obtain ⟨b', hb'⟩ := (h.below_iff hq).mp hj
    obtain rfl : q = p := List.append_inj_left' (Option.some.inj (hb'.symm.trans hb)) rfl
    exact h.eq_of_path hq hi
  · have hlength := congrArg List.length hvisited
    rw [List.length_map, List.length_map] at hlength
    rw [← hlength, hperm.length_eq, List.length_range']

/-- Merging grafts the branches of another tree below the root. -/
def Merges (tree other tree' : BranchTree) : Prop :=
  ∃ root : BranchNode, other.nodes[0]? = some root ∧ other.Grafts tree 0 root.children tree'

theorem Shows.grafts {shown' : List (List Branch)} (h : tree.Shows shown) (hF : tree.Holds F)
    (hp : shown[i]? = some p) (hother : other.Shows shown') (hnode : other.nodes[c]? = some node) :
    ∃ G visited tree', other.Reads node.children G visited ∧ G.Distinct ∧
      other.Grafts tree i node.children tree' ∧
      tree'.Holds (F.merge (ofPath p G)) ∧ Adds F p G (F.merge (ofPath p G)) := by
  obtain ⟨p', hp', -⟩ := hother.exists_path hnode
  obtain ⟨G, visited, hreads, hat⟩ := hother.reads hp' hnode
  obtain ⟨tree', hadd, hadded⟩ := h.add hp G
  have hmem := List.mem_of_getElem? hp
  exact ⟨G, visited, tree', hreads, hat.distinct, hreads.grafts hadd,
    h.holds_added hF hmem hat.distinct hadded,
    adds_merge (h.of_holds hF).1 hat.distinct (h.prefix_mem hF hmem)⟩

/-- A path that is branched along and a tree that is grafted add paths behind that of the node, and
nothing else. -/
structure Grows (tree : BranchTree) (F : Forest) (i : Nat) (p : List Branch) : Prop where
  branchPath : ∀ path : List Branch, ∃ c tree', tree.branchPath i path = some (c, tree') ∧
    tree'.Holds (F.merge (ofPath p (ofPath path .nil))) ∧
    Adds F p (ofPath path .nil) (F.merge (ofPath p (ofPath path .nil)))
  graft : ∀ (other : BranchTree) (c : Nat) (node : BranchNode), other.Built → other.nodes[c]? = some node →
    ∃ G visited tree', other.Reads node.children G visited ∧ other.Grafts tree i node.children tree' ∧
      tree'.Holds (F.merge (ofPath p G)) ∧ Adds F p G (F.merge (ofPath p G))

/-- Trees are merged as their forests, as ordered sets are united. -/
structure Unites (tree : BranchTree) (F : Forest) : Prop where
  self : F.merge F = F
  nil_right : F.merge .nil = F
  nil_left : Forest.nil.merge F = F
  merges : ∀ (second : BranchTree) (G : Forest), second.Built → second.Holds G →
    ∃ merged, tree.Merges second merged ∧ merged.Holds (F.merge G)
  paths : ∀ (second : BranchTree) (G : Forest), second.Built → second.Holds G →
    ∀ q, q ∈ (F.merge G).paths ↔ q ∈ (G.merge F).paths
  assoc : ∀ (second third : BranchTree) (G H : Forest), second.Built → second.Holds G → third.Built →
    third.Holds H → (F.merge G).merge H = F.merge (G.merge H)

theorem Shows.grows (h : tree.Shows shown) (hF : tree.Holds F) (hp : shown[i]? = some p) :
    tree.Grows F i p where
  branchPath path := by
    have hmem := List.mem_of_getElem? hp
    have hpath : (ofPath path .nil).Distinct := distinct_ofPath path trivial
    obtain ⟨c, tree', heq, hshows', -⟩ := h.branchPath hp path
    exact ⟨c, tree', heq, h.holds_added hF hmem hpath hshows',
      adds_merge (h.of_holds hF).1 hpath (h.prefix_mem hF hmem)⟩
  graft other c node hother hnode := by
    obtain ⟨shown', hother'⟩ := hother.shows
    obtain ⟨G, visited, tree', hreads, -, hgrafts, hholds, hadds⟩ := h.grafts hF hp hother' hnode
    exact ⟨G, visited, tree', hreads, hgrafts, hholds, hadds⟩

theorem Built.distinct (h : tree.Built) (hF : tree.Holds F) : F.Distinct := by
  obtain ⟨shown, hshows⟩ := h.shows
  exact (hshows.of_holds hF).1

theorem Shows.unites (h : tree.Shows shown) (hF : tree.Holds F) : tree.Unites F := by
  obtain ⟨hdistinct, -⟩ := h.of_holds hF
  refine ⟨merge_self hdistinct, rfl, nil_merge hdistinct, fun second G hsecond hG => ?_,
    fun second G hsecond hG q => ?_, fun second third G H hsecond hG hthird hH =>
      merge_assoc hdistinct (hsecond.distinct hG) (hthird.distinct hH)⟩
  · obtain ⟨shown', hsecond'⟩ := hsecond.shows
    obtain ⟨root, visited, hroot, hreads⟩ := hG
    obtain ⟨G', visited', merged, hreads', -, hgrafts, hholds, -⟩ := h.grafts hF h.root hsecond' hroot
    obtain ⟨rfl, -⟩ := hreads.unique hreads'
    exact ⟨merged, ⟨root, hroot, hgrafts⟩, hholds⟩
  · have hdistinct' := hsecond.distinct hG
    rw [hdistinct.mem_paths_merge hdistinct', hdistinct'.mem_paths_merge hdistinct, or_comm]

/-- Every tree that is built is an ordered set of paths, read as a forest: its handles stand for these paths,
operations at a node add paths behind that of the node, and merging unites the paths of two trees. -/
theorem built_ordered (h : tree.Built) : ∃ (F : Forest) (shown : List (List Branch)), tree.Holds F ∧
    tree.Ordered F ∧ shown.length = tree.nodes.length ∧ (∀ q, q ∈ shown ↔ q = [] ∨ q ∈ F.paths) ∧
    (∀ i p, shown[i]? = some p → tree.Grows F i p) ∧ tree.Unites F := by
  obtain ⟨shown, hshows⟩ := h.shows
  obtain ⟨F, hF, hdistinct, hchildren⟩ := hshows.holds
  refine ⟨F, shown, hF, hshows.ordered hF, hshows.length.symm, fun q => ?_, fun i p hp => hshows.grows hF hp,
    hshows.unites hF⟩
  obtain rfl | ⟨p, b, rfl⟩ := List.eq_nil_or_concat' q
  · simp [List.mem_of_getElem? hshows.root]
  · simp [hdistinct.mem_paths, hchildren, mem_ends]

namespace Sample

def post : Branch := .lambda "post" "Post"

def owner : Branch := .lambda "owner" "Person"

def reader : Branch := .lambda "reader" "Person"

def ownedPost : BranchTree := (BranchTree.extended {} 0 post).extended 1 owner

def people : BranchTree := ownedPost.extended 1 reader

def readPost : BranchTree := (BranchTree.extended {} 0 post).extended 1 reader

def readers : BranchTree := readPost.extended 0 owner

def peopleForest : Forest := .cons post (.cons owner .nil (.cons reader .nil .nil)) .nil

def readersForest : Forest := .cons post (.cons reader .nil .nil) (.cons owner .nil .nil)

theorem people_built : people.Built := by
  have howner : BranchTree.branchPath {} 0 [post, owner] = some (2, ownedPost) := rfl
  have hreader : ownedPost.branchPath 0 [post, reader] = some (3, people) := rfl
  exact .branchPath (.branchPath .new howner) hreader

theorem readers_built : readers.Built := by
  have hreader : BranchTree.branchPath {} 0 [post, reader] = some (2, readPost) := rfl
  have howner : readPost.branch 0 owner = some (3, readers) := rfl
  exact .branch (.branchPath .new hreader) howner

theorem people_holds : people.Holds peopleForest :=
  ⟨_, _, rfl, .cons rfl rfl (.cons rfl rfl .nil (.cons rfl rfl .nil .nil)) .nil⟩

theorem readers_holds : readers.Holds readersForest :=
  ⟨_, _, rfl, .cons rfl rfl (.cons rfl rfl .nil .nil) (.cons rfl rfl .nil .nil)⟩

end Sample

/-- Two trees that share a path, merged, and the second one grafted onto the node of the post. -/
theorem built_ordered_sample : Sample.people.Built ∧ Sample.people.Ordered Sample.peopleForest ∧
    (∀ p, p = [] ∨ p ∈ Sample.peopleForest.paths → ∃ i, Sample.people.Grows Sample.peopleForest i p) ∧
    Sample.people.Unites Sample.peopleForest ∧
    (∃ merged, Sample.people.Merges Sample.readers merged ∧ merged.Holds
      (.cons Sample.post (.cons Sample.owner .nil (.cons Sample.reader .nil .nil))
        (.cons Sample.owner .nil .nil))) ∧
    ∃ i grafted, Sample.readers.Grafts Sample.people i [1, 3] grafted ∧ grafted.Holds
      (.cons Sample.post (.cons Sample.owner .nil (.cons Sample.reader .nil
        (.cons Sample.post (.cons Sample.reader .nil .nil) .nil))) .nil) := by
  obtain ⟨F, shown, hF, hordered, -, hmem, hgrows, hunites⟩ := built_ordered Sample.people_built
  obtain rfl := hF.unique Sample.people_holds
  have hat : ∀ p, p = [] ∨ p ∈ Sample.peopleForest.paths →
      ∃ i, Sample.people.Grows Sample.peopleForest i p := by
    intro p hp
    obtain ⟨i, hi⟩ := List.mem_iff_getElem?.mp ((hmem p).mpr hp)
    exact ⟨i, hgrows i p hi⟩
  refine ⟨Sample.people_built, hordered, hat, hunites,
    hunites.merges _ _ Sample.readers_built Sample.readers_holds, ?_⟩
  obtain ⟨i, hi⟩ := hat [Sample.post] (Or.inr (by decide))
  obtain ⟨G, visited, grafted, hreads, hgrafts, hholds, -⟩ := hi.graft _ 0 _ Sample.readers_built rfl
  obtain ⟨root, visited', hroot, hreads'⟩ := Sample.readers_holds
  obtain rfl := Option.some.inj hroot
  obtain ⟨rfl, -⟩ := hreads.unique hreads'
  exact ⟨i, grafted, hgrafts, hholds⟩

end BranchTree
end EntityGraph
