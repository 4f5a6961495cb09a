import EntityGraph.Proofs.Naming.History
import EntityGraph.Proofs.Pattern.Narrow
import EntityGraph.Proofs.Placement.Step

/-!
# The variables that a forest asks for

A forest mentions the variables of the values and of the entities that its branches lead to. What is
mentioned by one of two forests is mentioned by the merged one, and it is a target of the pattern that
a forest is placed as. Names that are made up later do not matter.

A forest whose navigation properties are single-valued is placed as a narrow pattern.
-/
namespace EntityGraph

theorem Branch.placement_keeps {branch : Branch} {position : Position} {names : Naming}
    {placement : Placement} (h : branch.placement position names = .ok placement) :
    names.Keeps placement.names := by
  cases branch with
  | lambda name type =>
      simp only [Branch.placement] at h
      split at h
      · simp at h
      · obtain rfl := Except.ok.inj h
        exact .refl names
  | any a =>
      simp only [Branch.placement] at h
      split at h
      · simp at h
      · obtain rfl := Except.ok.inj h
        exact .refl names
  | property b =>
      simp only [Branch.placement] at h
      split at h
      · obtain rfl := Except.ok.inj h
        exact (Naming.keeps_relatedPlace names position.place b.name).1
      · split at h
        · obtain rfl := Except.ok.inj h
          exact (Naming.keeps_value names position.place b.name).1
        · next key _ =>
            obtain rfl := Except.ok.inj h
            exact (Naming.keeps_relatedPlace names position.place key.navigation).1.trans
              ((Naming.keeps_value _ _ _).1.trans (Naming.keeps_link _ _ _ _))

theorem Branch.placement_route {branch : Branch} {position : Position} {names : Naming}
    {placement : Placement} (hsingle : ∀ b, branch = .property b → b.isComplex = true → b.isSingle = true)
    (h : branch.placement position names = .ok placement) :
    ∀ step ∈ placement.route, step ≠ .alternative := by
  cases branch with
  | lambda name type =>
      simp only [Branch.placement] at h
      split at h
      · simp at h
      · obtain rfl := Except.ok.inj h
        simp
  | any a =>
      simp only [Branch.placement] at h
      split at h
      · simp at h
      · obtain rfl := Except.ok.inj h
        simp
  | property b =>
      simp only [Branch.placement] at h
      split at h
      · next hc =>
          obtain rfl := Except.ok.inj h
          simp [hsingle b rfl hc]
      · split at h
        · obtain rfl := Except.ok.inj h
          cases !b.isId && b.isMandatory <;> simp
        · obtain rfl := Except.ok.inj h
          simp

namespace Forest

theorem place_keeps {forest : Forest} {position : Position} {names : Naming} :
    names.Keeps (forest.place Rule.builtin position names).names := by
  induction forest generalizing position names with
  | nil => exact .refl names
  | cons branch below rest ihBelow ih =>
      rw [place_cons]
      cases hplaced : branch.placement position names with
      | error e => exact .refl names
      | ok placement =>
          have hstep := (Branch.placement_keeps hplaced).trans
            (@ihBelow placement.position placement.names)
          simp only
          split
          · exact hstep
          · exact hstep.trans ih

inductive Mentions (names : Naming) : Forest → Position → String → Prop
  | value {b : PropertyBranch} {below rest : Forest} {position : Position} {v : String}
      (hc : b.isComplex = false) (hk : b.foreignKey = none)
      (hv : names.value? position.place b.name = some v) :
      Mentions names (cons (.property b) below rest) position v
  | related {b : PropertyBranch} {below rest : Forest} {position : Position} {r : Place}
      (hc : b.isComplex = true) (hr : names.related? position.place b.name = some r) :
      Mentions names (cons (.property b) below rest) position r.var
  | belowRelated {b : PropertyBranch} {below rest : Forest} {position : Position} {r : Place}
      {v : String} (hc : b.isComplex = true) (hr : names.related? position.place b.name = some r)
      (h : Mentions names below { position with place := r } v) :
      Mentions names (cons (.property b) below rest) position v
  | belowLambda {name type : String} {below rest : Forest} {position : Position} {found : Namespace}
      {v : String} (hr : names.resolve position.scope name = .ok found)
      (h : Mentions names below { position with place := found.place } v) :
      Mentions names (cons (.lambda name type) below rest) position v
  | element {a : AnyBranch} {below rest : Forest} {position : Position} {found : Namespace}
      (hr : names.resolve (position.scope.enter a.key) a.lambda = .ok found) :
      Mentions names (cons (.any a) below rest) position found.place.var
  | belowElement {a : AnyBranch} {below rest : Forest} {position : Position} {found : Namespace}
      {v : String} (hr : names.resolve (position.scope.enter a.key) a.lambda = .ok found)
      (h : Mentions names below ⟨found.place, position.scope.enter a.key⟩ v) :
      Mentions names (cons (.any a) below rest) position v
  | rest {branch : Branch} {below rest : Forest} {position : Position} {v : String}
      (h : Mentions names rest position v) : Mentions names (cons branch below rest) position v

section Mentions

variable {names : Naming} {f g below below' rest rest' : Forest} {branch : Branch} {position : Position}
  {v : String}

theorem Mentions.cons_imp (h : (cons branch below nil).Mentions names position v)
    (hbelow : ∀ position, below.Mentions names position v → below'.Mentions names position v) :
    (cons branch below' rest).Mentions names position v := by
  cases h with
  | value hc hk hv => exact .value hc hk hv
  | related hc hr => exact .related hc hr
  | belowRelated hc hr h => exact .belowRelated hc hr (hbelow _ h)
  | belowLambda hr h => exact .belowLambda hr (hbelow _ h)
  | element hr => exact .element hr
  | belowElement hr h => exact .belowElement hr (hbelow _ h)
  | rest h => nomatch h

theorem Mentions.cons_cases (h : (cons branch below rest).Mentions names position v) :
    (cons branch below nil).Mentions names position v ∨ rest.Mentions names position v := by
  cases h with
  | value hc hk hv => exact Or.inl (.value hc hk hv)
  | related hc hr => exact Or.inl (.related hc hr)
  | belowRelated hc hr h => exact Or.inl (.belowRelated hc hr h)
  | belowLambda hr h => exact Or.inl (.belowLambda hr h)
  | element hr => exact Or.inl (.element hr)
  | belowElement hr h => exact Or.inl (.belowElement hr h)
  | rest h => exact Or.inr h

theorem Mentions.update {there : Forest → Forest} (h : f.Mentions names position v)
    (hthere : ∀ below position, below.Mentions names position v →
      (there below).Mentions names position v) :
    (f.update branch there).Mentions names position v := by
  induction f with
  | nil => nomatch h
  | cons b below rest _ ih =>
      unfold Forest.update
      split
      · exact h.cons_cases.elim (fun h => h.cons_imp (hthere below)) .rest
      · exact h.cons_cases.elim (fun h => h.cons_imp fun _ => id) fun h => .rest (ih h)

theorem Mentions.update_self {there : Forest → Forest}
    (h : (cons branch below nil).Mentions names position v)
    (hthere : ∀ other position, below.Mentions names position v →
      (there other).Mentions names position v) :
    (f.update branch there).Mentions names position v := by
  induction f with
  | nil => exact h.cons_imp (hthere nil)
  | cons b below' rest _ ih =>
      unfold Forest.update
      split
      · next heq =>
          subst heq
          exact h.cons_imp (hthere below')
      · exact .rest ih

theorem Mentions.merge_left (h : f.Mentions names position v) : (f.merge g).Mentions names position v := by
  induction g generalizing f position with
  | nil => exact h
  | cons branch below rest ihBelow ih => exact ih (h.update fun below position => ihBelow)

theorem Mentions.merge_right (h : g.Mentions names position v) :
    (f.merge g).Mentions names position v := by
  induction g generalizing f position with
  | nil => nomatch h
  | cons branch below rest ihBelow ih =>
      obtain h | h := h.cons_cases
      · exact (h.update_self fun other position => ihBelow).merge_left
      · exact ih h

end Mentions

theorem mem_targets_wrap {route : Route} {inner : Body} {v : String} (h : v ∈ inner.targets) :
    v ∈ (route.wrap inner).targets := by
  induction route with
  | nil => exact h
  | cons step route ih =>
      cases step with
      | slot => exact List.mem_append_left _ ih
      | alternative => exact List.mem_append_left _ ih
      | edge e => exact List.mem_cons_of_mem _ (List.mem_append_left _ ih)
      | conjunct root => exact List.mem_append_left _ ih

theorem Mentions.placement_targets {branch : Branch} {below : Forest} {position : Position}
    {names names' : Naming} {placement : Placement} {inner : Body} {v : String}
    (h : (cons branch below nil).Mentions names' position v)
    (hplaced : branch.placement position names = .ok placement) (hkeeps : placement.names.Keeps names')
    (hinner : below.Mentions names' placement.position v → v ∈ inner.targets) :
    v ∈ (placement.route.wrap inner).targets := by
  cases h with
  | @value b _ _ _ _ hc hk hv =>
      rw [Branch.placement_value hc hk] at hplaced
      obtain rfl := Except.ok.inj hplaced
      have hnamed := hkeeps.value (Naming.keeps_value names position.place b.name).2
      obtain rfl : (names.value position.place b.name).1 = v := Option.some.inj (hnamed.symm.trans hv)
      cases !b.isId && b.isMandatory <;> simp [Route.wrap, Step.wrap, Body.targets]
  | @related b _ _ _ r hc hr =>
      rw [Branch.placement_related hc] at hplaced
      obtain rfl := Except.ok.inj hplaced
      have hnamed := hkeeps.related (Naming.keeps_relatedPlace names position.place b.name).2
      obtain rfl : (names.relatedPlace position.place b.name).1 = r :=
        Option.some.inj (hnamed.symm.trans hr)
      cases b.isSingle <;> simp [Route.wrap, Step.wrap, Body.targets]
  | @belowRelated b _ _ _ r _ hc hr h =>
      rw [Branch.placement_related hc] at hplaced
      obtain rfl := Except.ok.inj hplaced
      have hnamed := hkeeps.related (Naming.keeps_relatedPlace names position.place b.name).2
      obtain rfl : (names.relatedPlace position.place b.name).1 = r :=
        Option.some.inj (hnamed.symm.trans hr)
      exact mem_targets_wrap (hinner h)
  | belowLambda hr h =>
      have hsame := (Branch.placement_keeps hplaced).trans hkeeps
      rw [Branch.placement_lambda ((hsame.resolve _ _).symm.trans hr)] at hplaced
      obtain rfl := Except.ok.inj hplaced
      exact mem_targets_wrap (hinner h)
  | element hr =>
      have hsame := (Branch.placement_keeps hplaced).trans hkeeps
      rw [Branch.placement_any ((hsame.resolve _ _).symm.trans hr)] at hplaced
      obtain rfl := Except.ok.inj hplaced
      exact List.mem_cons_self
  | belowElement hr h =>
      have hsame := (Branch.placement_keeps hplaced).trans hkeeps
      rw [Branch.placement_any ((hsame.resolve _ _).symm.trans hr)] at hplaced
      obtain rfl := Except.ok.inj hplaced
      exact mem_targets_wrap (hinner h)
  | rest h => cases h

theorem place_targets {forest : Forest} {position : Position} {names names' : Naming} {v : String}
    (hfailure : (forest.place Rule.builtin position names).failure = none)
    (hkeeps : (forest.place Rule.builtin position names).names.Keeps names')
    (h : forest.Mentions names' position v) :
    v ∈ (forest.place Rule.builtin position names).body.targets := by
  induction forest generalizing position names v with
  | nil => nomatch h
  | cons branch below rest ihBelow ih =>
      rw [place_cons] at hfailure hkeeps ⊢
      cases hplaced : branch.placement position names with
      | error e => simp [hplaced] at hfailure
      | ok placement =>
          simp only [hplaced] at hfailure hkeeps ⊢
          cases hinner : (below.place Rule.builtin placement.position placement.names).failure with
          | some e => simp [hinner] at hfailure
          | none =>
              simp only [hinner] at hfailure hkeeps ⊢
              have hrest := @place_keeps rest position
                (below.place Rule.builtin placement.position placement.names).names
              have hbelow := ihBelow (v := v) hinner (hrest.trans hkeeps)
              have hnames : placement.names.Keeps names' :=
                (@place_keeps below placement.position placement.names).trans (hrest.trans hkeeps)
              obtain h | h := h.cons_cases
              · exact Body.mem_targets_merge_left _ (h.placement_targets hplaced hnames hbelow)
              · exact Body.mem_targets_merge_right _ (ih hfailure hkeeps h)

def Single : Forest → Prop
  | nil => True
  | cons (.property b) below rest =>
    (b.isComplex = true → b.isSingle = true) ∧ below.Single ∧ rest.Single
  | cons _ below rest => below.Single ∧ rest.Single

theorem Single.head {branch : Branch} {below rest : Forest} (h : (cons branch below rest).Single) :
    ∀ b, branch = .property b → b.isComplex = true → b.isSingle = true := by
  rintro b rfl
  exact h.1

theorem place_narrow {forest : Forest} (h : forest.Single) (position : Position) (names : Naming) :
    (forest.place Rule.builtin position names).body.Narrow := by
  have hwrap : ∀ {route : Route} {inner : Body}, inner.Narrow → (∀ step ∈ route, step ≠ .alternative) →
      (route.wrap inner).Narrow := by
    intro route inner hinner hroute
    induction route with
    | nil => exact hinner
    | cons step route ih =>
        have hrest := ih fun s hs => hroute s (List.mem_cons_of_mem _ hs)
        cases step with
        | slot => exact ⟨rfl, hrest, rfl, trivial⟩
        | alternative => exact absurd rfl (hroute _ List.mem_cons_self)
        | edge e => exact ⟨hrest, trivial⟩
        | conjunct root => exact ⟨hrest, trivial⟩
  induction forest generalizing position names with
  | nil => trivial
  | cons branch below rest ihBelow ih =>
      have hparts : below.Single ∧ rest.Single := by
        cases branch with
        | property b => exact h.2
        | lambda name type => exact h
        | any a => exact h
      rw [place_cons]
      cases hplaced : branch.placement position names with
      | error e => trivial
      | ok placement =>
          have hhead := hwrap (ihBelow hparts.1 placement.position placement.names)
            (Branch.placement_route h.head hplaced)
          simp only
          split
          · exact hhead
          · exact hhead.merge (ih hparts.2 _ _)

end Forest
end EntityGraph
