import EntityGraph.Proofs.Pattern.Full
import EntityGraph.Proofs.Pattern.Together

/-!
# Optional groups have something to be optional to

An optional group extends the solutions of what stands before it in the same braces. It is supported if
a triple there has the variable from which its first triple departs. A pattern is written so that all of
its optional groups are supported, if it has a triple of its own or inherits one: below an edge there is
the triple of the edge, and in braces without a triple at the root the inherited one is repeated.
-/
namespace EntityGraph

open Sparql

namespace Sparql.Group

variable {departs : Triple → String → Prop}

/-- The group opens with a triple that departs from a variable of the triples `seen`. -/
def Joins (departs : Triple → String → Prop) (seen : List Triple) : Group → Prop
  | triple first _ => ∃ v, departs first v ∧ ∃ t ∈ seen, t.HasEnd v
  | _ => False

mutual

/-- Every optional group, at any depth, opens with a triple that departs from a variable of a triple before
it in the same braces; `seen` are the triples so far. -/
def Supported (departs : Triple → String → Prop) (seen : List Triple) : Group → Prop
  | nil => True
  | triple t rest => rest.Supported departs (seen ++ [t])
  | alternatives bodies rest => AllSupported departs bodies ∧ rest.Supported departs seen
  | optional body rest => body.Joins departs seen ∧ body.Supported departs [] ∧ rest.Supported departs seen

def AllSupported (departs : Triple → String → Prop) : List Group → Prop
  | [] => True
  | body :: more => body.Supported departs [] ∧ AllSupported departs more

end

theorem Joins.mono {seen seen' : List Triple} {f : Group} (hsub : seen ⊆ seen') (h : f.Joins departs seen) :
    f.Joins departs seen' := by
  cases f with
  | triple first rest =>
      obtain ⟨v, hv, t, ht, hend⟩ := h
      exact ⟨v, hv, t, hsub ht, hend⟩
  | nil => exact h
  | alternatives bodies rest => exact h
  | optional body rest => exact h

theorem Supported.mono {seen seen' : List Triple} {f : Group} (hsub : seen ⊆ seen')
    (h : f.Supported departs seen) : f.Supported departs seen' := by
  cases f with
  | nil => trivial
  | triple t rest =>
      have hsub : seen ++ [t] ⊆ seen' ++ [t] :=
        List.append_subset.mpr ⟨List.subset_append_of_subset_left _ hsub, List.subset_append_right _ _⟩
      exact @Supported.mono _ _ rest hsub h
  | alternatives bodies rest => exact ⟨h.1, h.2.mono hsub⟩
  | optional body rest => exact ⟨h.1.mono hsub, h.2.1, h.2.2.mono hsub⟩

theorem Supported.append {seen : List Triple} {f g : Group} (hf : f.Supported departs seen)
    (hg : g.Supported departs seen) : (f.append g).Supported departs seen := by
  cases f with
  | nil => exact hg
  | triple t rest =>
      have hrest : (rest.append g).Supported departs (seen ++ [t]) :=
        Supported.append hf (hg.mono (List.subset_append_left _ _))
      exact hrest
  | alternatives bodies rest => exact ⟨hf.1, hf.2.append hg⟩
  | optional body rest => exact ⟨hf.1, hf.2.1, hf.2.2.append hg⟩

variable {seen : List Triple} {g : Group}

theorem supported_ofTriples_append {ts : List Triple} (h : g.Supported departs (seen ++ ts)) :
    ((ofTriples ts).append g).Supported departs seen := by
  induction ts generalizing seen with
  | nil => rwa [List.append_nil] at h
  | cons t rest ih => exact ih (by rwa [List.append_assoc])

theorem supported_concat {groups : List Group} (h : ∀ g ∈ groups, g.Supported departs seen) :
    (concat groups).Supported departs seen := by
  induction groups with
  | nil => trivial
  | cons g rest ih =>
      obtain ⟨hg, hrest⟩ := List.forall_mem_cons.mp h
      exact hg.append (ih hrest)

theorem supported_union {groups : List Group} (h : ∀ g ∈ groups, g.Supported departs []) :
    (union groups).Supported departs seen := by
  have hall : AllSupported departs groups := by
    induction groups with
    | nil => trivial
    | cons g rest ih =>
        obtain ⟨hg, hrest⟩ := List.forall_mem_cons.mp h
        exact ⟨hg, ih hrest⟩
  unfold union
  split
  · trivial
  · exact ⟨hall, trivial⟩

end Sparql.Group

namespace Body

variable {departs : Triple → String → Prop} {root : String} {B : Body} {inherited : Option Triple}
  {seen : List Triple}

/-- The triples of edges depart from their roots, and conjuncts hang at the same root. -/
def departing (departs : Triple → String → Prop) : Condition where
  leaf _ _ _ := True
  edge root e := departs (e.triple root) root
  conjunct root own := own = root

theorem hasEnd_ownTriples {t : Triple} (h : t ∈ B.ownTriples root) : t.HasEnd root := by
  obtain h | h := List.mem_append.mp h
  · obtain ⟨_, -, rfl⟩ := List.mem_map.mp h
    exact Or.inl rfl
  · obtain ⟨_, -, rfl⟩ := List.mem_map.mp h
    exact Edge.hasEnd_triple.mpr (Or.inl rfl)

/-- A pattern in braces is supported without what stands before the braces, if it is so after a triple at its
root. -/
theorem supported_lead {t : Triple} (ht : t.HasEnd root)
    (h : ∀ {seen}, (B.ownTriples root = [] → B.optionals ≠ [] → ∃ t ∈ seen, t.HasEnd root) →
      (B.written root (some t)).Supported departs seen) :
    ((Group.ofTriples (B.lead root (some t))).append (B.written root (some t))).Supported departs [] := by
  refine Group.supported_ofTriples_append (h fun hown hoptionals => ⟨t, ?_, ht⟩)
  simp [lead, hown, hoptionals]

/-- A pattern with a triple at its root, of its own or inherited, is supported after triples of which one is
at the root, unless it has one itself. -/
theorem supported_written (hB : B.Each (departing departs) root)
    (hinherited : ∀ t, inherited = some t → t.HasEnd root)
    (hanchor : B.ownTriples root = [] → inherited ≠ none)
    (hseen : B.ownTriples root = [] → B.optionals ≠ [] → ∃ t ∈ seen, t.HasEnd root) :
    (B.written root inherited).Supported departs seen := by
  induction hsize : sizeOf B using Nat.strong_induction_on generalizing B root inherited seen with
  | _ size ih =>
      -- what hangs below an edge follows the triple of the edge
      have hbelow : ∀ entry ∈ B.edges, ∀ {seen}, entry.1.triple root ∈ seen →
          (entry.2.written entry.1.target (some (entry.1.triple root))).Supported departs seen := by
        intro entry hentry seen hmem
        have hend : (entry.1.triple root).HasEnd entry.1.target := Edge.hasEnd_triple.mpr (Or.inr rfl)
        refine ih _ (hsize ▸ sizeOf_edges hentry) (hB.of_mem_edges hentry).2 ?_ (by simp)
          (fun _ _ => ⟨_, hmem, hend⟩) rfl
        rintro t ⟨⟩
        exact hend
      obtain ⟨anchor, hanchor, hroot⟩ :
          ∃ t, (B.ownTriples root).head?.or inherited = some t ∧ t.HasEnd root := by
        cases hown : B.ownTriples root with
        | nil =>
            obtain ⟨t, ht⟩ := Option.ne_none_iff_exists'.mp (hanchor hown)
            exact ⟨t, by simp [ht], hinherited t ht⟩
        | cons t rest => exact ⟨t, rfl, hasEnd_ownTriples (hown ▸ List.mem_cons_self)⟩
      -- what stands in braces can count on the anchor
      have hbraces : ∀ inner : Body, sizeOf inner < sizeOf B → inner.Each (departing departs) root →
          ((Group.ofTriples (inner.lead root (some anchor))).append
            (inner.written root (some anchor))).Supported departs [] := by
        intro inner hlt hinner
        refine supported_lead hroot fun hseen => ih _ (hsize ▸ hlt) hinner ?_ (by simp) hseen rfl
        rintro t ⟨⟩
        exact hroot
      rw [written_eq]
      simp only [hanchor]
      refine Group.supported_ofTriples_append (.append (Group.supported_concat ?_) (.append
        (Group.supported_concat ?_) (.append (Group.supported_union ?_) (Group.supported_concat ?_))))
      · intro g hg
        obtain ⟨entry, hentry, rfl⟩ := List.mem_map.mp hg
        refine hbelow entry (List.mem_filter.mp hentry).1 (List.mem_append_right _ ?_)
        exact List.mem_append_right _ (List.mem_map_of_mem hentry)
      · intro g hg
        obtain ⟨⟨own, inner⟩, hinner, rfl⟩ := List.mem_map.mp hg
        have hmem := (List.mem_filter.mp hinner).1
        obtain ⟨rfl, heach⟩ : own = root ∧ inner.Each (departing departs) own := hB.of_mem_conjuncts hmem
        simp only [shared, if_true]
        exact ⟨⟨hbraces inner (sizeOf_conjuncts hmem) heach, trivial⟩, trivial⟩
      · intro g hg
        obtain ⟨inner, hinner, rfl⟩ := List.mem_map.mp hg
        have hmem := (List.mem_filter.mp hinner).1
        exact hbraces inner (sizeOf_alternatives hmem) (hB.of_mem_alternatives hmem)
      · intro g hg
        obtain ⟨entry, hentry, rfl⟩ := List.mem_map.mp hg
        have hmem := (List.mem_filter.mp hentry).1
        refine ⟨⟨root, (hB.of_mem_edges hmem).1, ?_⟩, hbelow entry hmem (List.mem_singleton_self _), trivial⟩
        cases hown : B.ownTriples root with
        | nil => simpa [hown] using hseen hown (List.ne_nil_of_mem hentry)
        | cons t rest => exact ⟨t, by simp, hasEnd_ownTriples (hown ▸ List.mem_cons_self)⟩

end Body

theorem Pattern.supported_group {departs : Triple → String → Prop} {p : Pattern}
    (hp : p.body.Each (Body.departing departs) p.root) (hown : p.body.ownTriples p.root ≠ []) :
    p.group.Supported departs [] := by
  rw [group_eq_written]
  exact Body.supported_written hp (by simp) (fun hnil => absurd hnil hown) fun hnil => absurd hnil hown

end EntityGraph
