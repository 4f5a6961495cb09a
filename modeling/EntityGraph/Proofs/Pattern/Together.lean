import EntityGraph.Proofs.Pattern.Narrow
import EntityGraph.Proofs.Pattern.Soundness
import EntityGraph.Proofs.Pattern.Written

/-!
# Variables that are bound together

Wherever a pattern hangs at a variable `v`, it may have a plain edge to `w`. If all of them do, in all
alternatives and below optional edges too, then every solution that binds `v` binds `w` as well, whatever
the data is: `v` is bound only by the triple of an edge to it, or by triples of what hangs there, and all
of these stand in one group with the plain edge to `w`.

Merging patterns only adds to what hangs at a variable, so what every part of a pattern has there, the whole
pattern has there too.
-/
namespace EntityGraph

open Sparql

def Sparql.Triple.HasEnd (t : Triple) (v : String) : Prop :=
  v = t.subject ∨ v = t.object

theorem Edge.hasEnd_triple {e : Edge} {root v : String} :
    (e.triple root).HasEnd v ↔ v = root ∨ v = e.target := by
  unfold Edge.triple Triple.HasEnd
  split
  · exact or_comm
  · exact Iff.rfl

namespace Sparql.Group

variable {data : Dataset} {v w : String} {G H : Group}

/-- Solutions that bind `w` wherever they bind `v` are extended to such solutions. -/
def Ties (data : Dataset) (v w : String) (G : Group) : Prop :=
  ∀ found : List Solution, (∀ μ ∈ found, (μ.get? v).isSome → (μ.get? w).isSome) →
    ∀ ρ ∈ G.extend data .empty found, (ρ.get? v).isSome → (ρ.get? w).isSome

theorem ties_nil : Ties data v w nil := fun _ h => h

theorem Ties.append (hG : G.Ties data v w) (hH : H.Ties data v w) : (G.append H).Ties data v w := by
  intro found hfound ρ hρ
  rw [extend_append] at hρ
  exact hH _ (hG found hfound) ρ hρ

theorem Ties.solutions (h : G.Ties data v w) {ρ : Solution} (hρ : ρ ∈ G.solutions data .empty) :
    (ρ.get? v).isSome → (ρ.get? w).isSome :=
  h [[]] (by simp) ρ hρ

theorem Fixes.ties (h : G.Fixes data .empty {w}) : G.Ties data v w := by
  intro found _ ρ hρ _
  have hw := h found ρ hρ w rfl
  rwa [Assignment.extend_empty] at hw

theorem isSome_merge {μ ν : Solution} (hμ : (μ.get? v).isSome → (μ.get? w).isSome)
    (hν : (ν.get? v).isSome → (ν.get? w).isSome) (h : ((μ.merge ν).get? v).isSome) :
    ((μ.merge ν).get? w).isSome := by
  rw [Solution.get?_merge, Option.isSome_or, Bool.or_eq_true] at h ⊢
  exact h.imp hμ hν

theorem ties_triple {t : Triple} (h : ¬ t.HasEnd v) : Ties data v w (triple t nil) := by
  intro found hfound ρ hρ
  obtain ⟨μ, hμ, ν, hν, -, rfl⟩ := mem_join.mp hρ
  refine isSome_merge (hfound μ hμ) fun hv => ?_
  obtain ⟨a, ha⟩ := Option.isSome_iff_exists.mp hv
  obtain ⟨-, -, -, -, -, hends⟩ := Dataset.mem_matching hν
  exact absurd (hends v a ha).2 h

theorem ties_ofTriples {ts : List Triple} (h : ∀ t ∈ ts, ¬ t.HasEnd v) : Ties data v w (ofTriples ts) := by
  induction ts with
  | nil => exact ties_nil
  | cons t rest ih =>
      obtain ⟨ht, hrest⟩ := List.forall_mem_cons.mp h
      exact (ties_triple ht).append (ih hrest)

theorem ties_concat {groups : List Group} (h : ∀ g ∈ groups, Ties data v w g) :
    Ties data v w (concat groups) := by
  induction groups with
  | nil => exact ties_nil
  | cons g rest ih =>
      obtain ⟨hg, hrest⟩ := List.forall_mem_cons.mp h
      exact hg.append (ih hrest)

theorem ties_union {groups : List Group} (h : ∀ g ∈ groups, Ties data v w g) :
    Ties data v w (union groups) := by
  unfold union
  split
  · exact ties_nil
  · intro found hfound ρ hρ
    obtain ⟨μ, hμ, ν, hν, -, rfl⟩ := mem_join.mp hρ
    obtain ⟨g, hg, hν⟩ := mem_unionSolutions.mp hν
    exact isSome_merge (hfound μ hμ) ((h g hg).solutions hν)

theorem ties_optional {body : Group} (h : body.Ties data v w) : Ties data v w (optional body nil) := by
  intro found hfound ρ hρ
  obtain ⟨μ, hμ, ν, hν, -, rfl⟩ | ⟨hρ, -⟩ := mem_leftJoin.mp hρ
  · exact isSome_merge (hfound μ hμ) (h.solutions hν)
  · exact hfound ρ hρ

theorem fixes_ofTriples {ts : List Triple} {t : Triple} (ht : t ∈ ts) (hw : isVariable w = true)
    (hend : t.HasEnd w) : Fixes data .empty {w} (ofTriples ts) := by
  induction ts with
  | nil => simp at ht
  | cons first rest ih =>
      obtain rfl | ht := List.mem_cons.mp ht
      · have hfirst : Fixes data .empty {w} (triple t nil) := by
          intro found ρ hρ v hv
          obtain rfl : v = w := hv
          obtain ⟨μ, -, ν, hν, hc, rfl⟩ := mem_join.mp hρ
          obtain ⟨a, b, -, ha, hb, -⟩ := Dataset.mem_matching hν
          have hsub := Assignment.extend_sub_merge_right .empty hc
          obtain rfl | rfl := hend
          · rw [Dataset.denotes?_of_isVariable hw] at ha
            exact Option.isSome_iff_exists.mpr ⟨a, hsub _ _ ha⟩
          · rw [Dataset.denotes?_of_isVariable hw] at hb
            exact Option.isSome_iff_exists.mpr ⟨b, hsub _ _ hb⟩
        exact hfirst.append_left (H := ofTriples rest)
      · exact (ih ht).append_right (G := triple first nil)

theorem fixes_concat {E : Set String} {groups : List Group} (hg : G ∈ groups) (h : G.Fixes data .empty E) :
    Fixes data .empty E (concat groups) := by
  induction groups with
  | nil => simp at hg
  | cons first rest ih =>
      obtain rfl | hg := List.mem_cons.mp hg
      · exact h.append_left
      · exact (ih hg).append_right

end Sparql.Group

namespace Body

variable {v w root : String} {B C : Body} {e : Edge} {below : Body}

/-- The patterns that hang at the variable `v`, at any depth. -/
def rootedAt (v : String) : Body → List Body
  | nil => []
  | leaf _ _ rest => rest.rootedAt v
  | edge e below rest => (if e.target = v then [below] else []) ++ (below.rootedAt v ++ rest.rootedAt v)
  | alternative _ body rest => body.rootedAt v ++ rest.rootedAt v
  | conjunct own body rest => (if own = v then [body] else []) ++ (body.rootedAt v ++ rest.rootedAt v)

theorem rootedAt_of_mem_edges (h : (e, below) ∈ B.edges) :
    (e.target = v → below ∈ B.rootedAt v) ∧ ∀ C ∈ below.rootedAt v, C ∈ B.rootedAt v := by
  induction B with
  | nil => simp [edges] at h
  | leaf predicate term rest ih => exact ih h
  | edge e' below' rest _ ih =>
      obtain heq | h := List.mem_cons.mp h
      · obtain ⟨rfl, rfl⟩ := Prod.mk.inj heq
        refine ⟨fun htarget => ?_, fun C hC => ?_⟩
        · simp [rootedAt, htarget]
        · exact List.mem_append_right _ (List.mem_append_left _ hC)
      · obtain ⟨hhere, hbelow⟩ := ih h
        exact ⟨fun ht => List.mem_append_right _ (List.mem_append_right _ (hhere ht)),
          fun C hC => List.mem_append_right _ (List.mem_append_right _ (hbelow C hC))⟩
  | alternative isSlot body rest _ ih =>
      obtain ⟨hhere, hbelow⟩ := ih h
      exact ⟨fun ht => List.mem_append_right _ (hhere ht), fun C hC => List.mem_append_right _ (hbelow C hC)⟩
  | conjunct own body rest _ ih =>
      obtain ⟨hhere, hbelow⟩ := ih h
      exact ⟨fun ht => List.mem_append_right _ (List.mem_append_right _ (hhere ht)),
        fun C hC => List.mem_append_right _ (List.mem_append_right _ (hbelow C hC))⟩

theorem rootedAt_of_mem_alternatives (h : C ∈ B.alternatives) : ∀ D ∈ C.rootedAt v, D ∈ B.rootedAt v := by
  induction B with
  | nil => simp [alternatives] at h
  | leaf predicate term rest ih => exact ih h
  | edge e' below' rest _ ih =>
      exact fun D hD => List.mem_append_right _ (List.mem_append_right _ (ih h D hD))
  | alternative isSlot body rest _ ih =>
      obtain rfl | h := List.mem_cons.mp h
      · exact fun D hD => List.mem_append_left _ hD
      · exact fun D hD => List.mem_append_right _ (ih h D hD)
  | conjunct own body rest _ ih =>
      exact fun D hD => List.mem_append_right _ (List.mem_append_right _ (ih h D hD))

theorem exists_plain_of_mem_plainTargets (h : w ∈ B.plainTargets) :
    ∃ entry ∈ B.plains, entry.1.target = w := by
  induction B with
  | nil => simp [plainTargets] at h
  | leaf predicate term rest ih => exact ih h
  | edge e below rest _ ih =>
      unfold plainTargets at h
      cases ho : e.isOptional with
      | true =>
          rw [ho, if_pos rfl] at h
          simpa [plains, edges, ho] using ih h
      | false =>
          rw [ho, if_neg (by simp)] at h
          obtain rfl | h := List.mem_cons.mp h
          · exact ⟨(e, below), by simp [plains, edges, ho], rfl⟩
          · obtain ⟨entry, hentry, htarget⟩ := ih h
            exact ⟨entry, by simpa [plains, edges, ho] using Or.inr hentry, htarget⟩
  | alternative isSlot body rest _ ih => exact ih h
  | conjunct own body rest _ ih => exact ih h

theorem fixes_written (data : Dataset) (root : String) (inherited : Option Triple) (hw : isVariable w = true)
    (h : w ∈ B.plainTargets) : (B.written root inherited).Fixes data .empty {w} := by
  obtain ⟨entry, hentry, rfl⟩ := exists_plain_of_mem_plainTargets h
  rw [written_eq]
  refine Group.Fixes.append_left (Group.fixes_ofTriples (t := entry.1.triple root) ?_ hw ?_)
  · exact List.mem_append_right _ (List.mem_map_of_mem hentry)
  · exact Edge.hasEnd_triple.mpr (Or.inr rfl)

theorem Each.of_mem_leaves {c : Condition} {predicate term : String} (hB : B.Each c root)
    (h : (predicate, term) ∈ B.leaves) : c.leaf root predicate term := by
  induction B with
  | nil => simp [leaves] at h
  | leaf p t rest ih =>
      obtain heq | h := List.mem_cons.mp h
      · obtain ⟨rfl, rfl⟩ := Prod.mk.inj heq
        exact hB.1
      · exact ih hB.2 h
  | edge e below rest _ ih => exact ih hB.2.2 h
  | alternative isSlot body rest _ ih => exact ih hB.2 h
  | conjunct own body rest _ ih => exact ih hB.2.2 h

theorem Each.conjuncts_eq_nil {c : Condition} (h : B.Each c root) (hc : ∀ root own, ¬ c.conjunct root own) :
    B.conjuncts = [] := by
  induction B with
  | nil => rfl
  | leaf predicate term rest ih => exact ih h.2
  | edge e below rest _ ih => exact ih h.2.2
  | alternative isSlot body rest _ ih => exact ih h.2
  | conjunct own body rest _ _ => exact absurd h.1 (hc root own)

/-- No leaf leads to the variable, and there are no conjuncts. -/
def without (v : String) : Condition where
  leaf _ _ term := term ≠ v
  edge _ _ := True
  conjunct _ _ := False

theorem not_hasEnd_ownTriples (hB : B.Each (without v) root) (hroot : root ≠ v)
    (hplain : ∀ entry ∈ B.plains, entry.1.target ≠ v) : ∀ t ∈ B.ownTriples root, ¬ t.HasEnd v := by
  intro t ht
  obtain ht | ht := List.mem_append.mp ht
  · obtain ⟨⟨predicate, term⟩, hleaf, rfl⟩ := List.mem_map.mp ht
    rintro (heq | heq)
    · exact hroot heq.symm
    · exact hB.of_mem_leaves hleaf heq.symm
  · obtain ⟨entry, hentry, rfl⟩ := List.mem_map.mp ht
    rw [Edge.hasEnd_triple]
    rintro (heq | heq)
    · exact hroot heq.symm
    · exact hplain entry hentry heq.symm

/-- A pattern at another root binds `w` wherever it binds `v`, if all that hangs at `v` has a plain edge
to `w`. -/
theorem written_ties {data : Dataset} (hw : isVariable w = true) {inherited : Option Triple}
    (hroot : root ≠ v) (hinherited : ∀ t, inherited = some t → ¬ t.HasEnd v) (hB : B.Each (without v) root)
    (hrooted : ∀ C ∈ B.rootedAt v, w ∈ C.plainTargets) : (B.written root inherited).Ties data v w := by
  induction hsize : sizeOf B using Nat.strong_induction_on generalizing B root inherited with
  | _ size ih =>
      -- what hangs below an edge to another variable
      have hbelow : ∀ entry ∈ B.edges, entry.1.target ≠ v →
          (entry.2.written entry.1.target (some (entry.1.triple root))).Ties data v w := by
        intro entry hentry htarget
        refine ih _ (hsize ▸ sizeOf_edges hentry) htarget ?_ (hB.of_mem_edges hentry).2
          (fun C hC => hrooted C ((rootedAt_of_mem_edges hentry).2 C hC)) rfl
        rintro t ⟨⟩
        rw [Edge.hasEnd_triple]
        exact not_or.mpr ⟨hroot.symm, htarget.symm⟩
      by_cases hplain : ∃ entry ∈ B.plains, entry.1.target = v
      · -- a plain edge leads to `v`, so that `v` and `w` are bound by every solution
        obtain ⟨entry, hentry, htarget⟩ := hplain
        have hmem := hrooted _ ((rootedAt_of_mem_edges (List.mem_filter.mp hentry).1).1 htarget)
        rw [written_eq]
        exact (Group.fixes_concat (List.mem_map_of_mem hentry)
          (fixes_written data _ _ hw hmem)).append_left.append_right.ties
      · push Not at hplain
        have hown := not_hasEnd_ownTriples hB hroot hplain
        have hanchor : ∀ t, (B.ownTriples root).head?.or inherited = some t → ¬ t.HasEnd v := by
          intro t ht
          obtain ht | ⟨-, ht⟩ := Option.or_eq_some_iff.mp ht
          · exact hown t (List.mem_of_mem_head? ht)
          · exact hinherited t ht
        have hlead : ∀ inner : Body, ∀ t ∈ inner.lead root ((B.ownTriples root).head?.or inherited),
          ¬ t.HasEnd v := by
          intro inner t ht
          unfold lead at ht
          split at ht
          · exact hanchor t (Option.mem_toList.mp ht)
          · simp at ht
        have hothers : B.others = [] := by
          rw [others, hB.conjuncts_eq_nil fun _ _ => id]
          rfl
        rw [written_eq]
        refine (Group.ties_ofTriples hown).append (.append (Group.ties_concat ?_) (.append ?_
          (.append (Group.ties_union ?_) (Group.ties_concat ?_))))
        · intro g hg
          obtain ⟨entry, hentry, rfl⟩ := List.mem_map.mp hg
          exact hbelow entry (List.mem_filter.mp hentry).1 (hplain entry hentry)
        · rw [hothers]
          exact Group.ties_nil
        · intro g hg
          obtain ⟨inner, hinner, rfl⟩ := List.mem_map.mp hg
          have hmem := (List.mem_filter.mp hinner).1
          exact (Group.ties_ofTriples (hlead inner)).append
            (ih _ (hsize ▸ sizeOf_alternatives hmem) hroot hanchor
            (hB.of_mem_alternatives hmem) (fun C hC => hrooted C
              (rootedAt_of_mem_alternatives hmem C hC)) rfl)
        · intro g hg
          obtain ⟨entry, hentry, rfl⟩ := List.mem_map.mp hg
          have hmem := (List.mem_filter.mp hentry).1
          by_cases htarget : entry.1.target = v
          · have hplain := hrooted _ ((rootedAt_of_mem_edges hmem).1 htarget)
            exact Group.ties_optional
              ((fixes_written data _ _ hw hplain).append_right (G := .triple (entry.1.triple root) .nil)).ties
          · refine Group.ties_optional (.append (G := .triple (entry.1.triple root) .nil) ?_
              (hbelow entry hmem htarget))
            refine Group.ties_triple ?_
            rw [Edge.hasEnd_triple]
            exact not_or.mpr ⟨hroot.symm, fun h => htarget h.symm⟩

end Body

namespace Body

variable {P : String → Body → Prop} {B C : Body}

/-- What hangs below edges, and in conjuncts, satisfies `P` with the variable it hangs at. -/
def EachBelow (P : String → Body → Prop) : Body → Prop
  | nil => True
  | leaf _ _ rest => rest.EachBelow P
  | edge e below rest => (P e.target below ∧ below.EachBelow P) ∧ rest.EachBelow P
  | alternative _ body rest => body.EachBelow P ∧ rest.EachBelow P
  | conjunct own body rest => (P own body ∧ body.EachBelow P) ∧ rest.EachBelow P

theorem EachBelow.append (hB : B.EachBelow P) (hC : C.EachBelow P) : (B.append C).EachBelow P := by
  induction B with
  | nil => exact hC
  | leaf predicate term rest ih => exact ih hB
  | edge e below rest _ ih => exact ⟨hB.1, ih hB.2⟩
  | alternative isSlot body rest _ ih => exact ⟨hB.1, ih hB.2⟩
  | conjunct own body rest _ ih => exact ⟨hB.1, ih hB.2⟩

theorem EachBelow.addLeaf (hB : B.EachBelow P) (predicate term : String) :
    (B.addLeaf predicate term).EachBelow P := by
  induction B with
  | nil => trivial
  | leaf p t rest ih =>
      unfold Body.addLeaf
      split
      · exact hB
      · exact ih hB
  | edge e below rest _ ih => exact ⟨hB.1, ih hB.2⟩
  | alternative isSlot body rest _ ih => exact ⟨hB.1, ih hB.2⟩
  | conjunct own body rest _ ih => exact ⟨hB.1, ih hB.2⟩

theorem EachBelow.updateEdge (hB : B.EachBelow P) {e : Edge} {f : Body → Body}
    (hnew : P e.target (f nil) ∧ (f nil).EachBelow P)
    (hold : ∀ there, P e.target there ∧ there.EachBelow P → P e.target (f there) ∧ (f there).EachBelow P) :
    (B.updateEdge e f).EachBelow P := by
  induction B with
  | nil => exact ⟨hnew, trivial⟩
  | leaf predicate term rest ih => exact ih hB
  | edge e' below rest _ ih =>
      unfold Body.updateEdge
      split
      · next heq =>
          subst heq
          exact ⟨hold below hB.1, hB.2⟩
      · exact ⟨hB.1, ih hB.2⟩
  | alternative isSlot body rest _ ih => exact ⟨hB.1, ih hB.2⟩
  | conjunct own body rest _ ih => exact ⟨hB.1, ih hB.2⟩

theorem EachBelow.updateSlot (hB : B.EachBelow P) {f : Body → Body}
    (hf : ∀ there, there.EachBelow P → (f there).EachBelow P) : (B.updateSlot f).EachBelow P := by
  induction B with
  | nil => exact ⟨hf nil trivial, trivial⟩
  | leaf predicate term rest ih => exact ih hB
  | edge e below rest _ ih => exact ⟨hB.1, ih hB.2⟩
  | alternative isSlot body rest _ ih =>
      cases isSlot with
      | true => exact ⟨hf body hB.1, hB.2⟩
      | false => exact ⟨hB.1, ih hB.2⟩
  | conjunct own body rest _ ih => exact ⟨hB.1, ih hB.2⟩

/-- Patterns are merged edge by edge: what hangs below an edge only gets more. -/
theorem EachBelow.merge (hP : ∀ {v} {B C : Body}, B.Covers C → P v B → P v C) (hB : B.EachBelow P)
    (hC : C.EachBelow P) : (B.merge C).EachBelow P := by
  induction C generalizing B with
  | nil => exact hB
  | leaf predicate term rest ih => exact ih (hB.addLeaf predicate term) hC
  | edge e below rest ihBelow ih =>
      obtain ⟨⟨hhere, hbelow⟩, hrest⟩ := hC
      refine ih (hB.updateEdge ?_ fun there hthere => ?_) hrest
      · exact ⟨hP (covers_merge_right _ _) hhere, ihBelow (B := nil) trivial hbelow⟩
      · exact ⟨hP (covers_merge_left _ _) hthere.1, ihBelow hthere.2 hbelow⟩
  | alternative isSlot body rest ihBody ih =>
      cases isSlot with
      | true => exact ih (hB.updateSlot fun there hthere => ihBody hthere hC.1) hC.2
      | false => exact ih (hB.append ⟨hC.1, trivial⟩) hC.2
  | conjunct own body rest _ ih => exact ih (hB.append ⟨hC.1, trivial⟩) hC.2

theorem EachBelow.rootedAt {v : String} (h : B.EachBelow P) : ∀ C ∈ B.rootedAt v, P v C := by
  induction B with
  | nil => simp [Body.rootedAt]
  | leaf predicate term rest ih => exact ih h
  | edge e below rest ihBelow ih =>
      intro C hC
      obtain hC | hC := List.mem_append.mp hC
      · split at hC
        · next htarget =>
            obtain rfl := List.mem_singleton.mp hC
            exact htarget ▸ h.1.1
        · simp at hC
      · exact (List.mem_append.mp hC).elim (ihBelow h.1.2 C) (ih h.2 C)
  | alternative isSlot body rest ihBody ih =>
      exact fun C hC => (List.mem_append.mp hC).elim (ihBody h.1 C) (ih h.2 C)
  | conjunct own body rest ihBody ih =>
      intro C hC
      obtain hC | hC := List.mem_append.mp hC
      · split at hC
        · next hown =>
            obtain rfl := List.mem_singleton.mp hC
            exact hown ▸ h.1.1
        · simp at hC
      · exact (List.mem_append.mp hC).elim (ihBody h.1.2 C) (ih h.2 C)

theorem rootedAt_ne_nil {v : String} (h : v ∈ B.targets) : B.rootedAt v ≠ [] := by
  induction B with
  | nil => simp [targets] at h
  | leaf predicate term rest ih => exact ih h
  | edge e below rest ihBelow ih =>
      simp only [targets, List.mem_cons, List.mem_append] at h
      obtain rfl | h | h := h
      · simp [Body.rootedAt]
      · simp [Body.rootedAt, ihBelow h]
      · simp [Body.rootedAt, ih h]
  | alternative isSlot body rest ihBody ih =>
      obtain h | h := List.mem_append.mp h
      · simp [Body.rootedAt, ihBody h]
      · simp [Body.rootedAt, ih h]
  | conjunct own body rest ihBody ih =>
      obtain h | h := List.mem_append.mp h
      · simp [Body.rootedAt, ihBody h]
      · simp [Body.rootedAt, ih h]

end Body

/-- The patterns that hang at the variable `v`: the whole one, if `v` is its root, and those below edges
to `v`. -/
def Pattern.rootedAt (p : Pattern) (v : String) : List Body :=
  (if p.root = v then [p.body] else []) ++ p.body.rootedAt v

/-- If all that hangs at `v` has a plain edge to `w`, every solution that binds `v` binds `w`. -/
theorem Pattern.isSome_of_rootedAt {p : Pattern} {v w : String} (hw : isVariable w = true)
    (hp : p.body.Each (Body.without v) p.root) (hrooted : ∀ C ∈ p.rootedAt v, w ∈ C.plainTargets)
    {data : Dataset} {μ : Solution} (hμ : μ ∈ p.group.solutions data .empty) (hv : (μ.get? v).isSome) :
    (μ.get? w).isSome := by
  rw [group_eq_written] at hμ
  by_cases hroot : p.root = v
  · have hmem : w ∈ p.body.plainTargets := hrooted _ (by simp [rootedAt, hroot])
    exact (Body.fixes_written data p.root none hw hmem).ties.solutions hμ hv
  · exact (Body.written_ties hw hroot (by simp) hp
      fun C hC => hrooted C (List.mem_append_right _ hC)).solutions hμ hv

end EntityGraph
