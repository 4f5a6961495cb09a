import EntityGraph.Proofs.Expand.Shows
import EntityGraph.Proofs.Placement.Resolves

/-!
# Expand trees that fit a type

An expand tree fits a type when every name of it, on every level, is a navigation property of the type
that is reached there. The faults that are looked for are exactly what keeps a tree from fitting. The
pattern of a tree that fits can always be placed, and its names have what is shown.
-/
namespace EntityGraph

/-- Every name is a navigation property, and what is expanded below it fits the type it leads to. -/
inductive ExpandTree.Fits (schema : Schema) : EntityType → ExpandTree → Prop
  | intro {T : EntityType} {expand : ExpandTree}
      (navigates : ∀ name sub, expand.child? name = some sub →
        ∃ p, T.property? name = some p ∧ p.isElementary = false)
      (below : ∀ name sub p t, expand.child? name = some sub → T.property? name = some p →
        schema.targetType p = .ok t → Fits schema t sub) : Fits schema T expand

namespace ExpandTree

variable {schema : Schema} {T : EntityType} {expand : ExpandTree}

theorem mem_names {name : String} : name ∈ expand.names ↔ ∃ sub, expand.child? name = some sub := by
  induction expand with
  | nil => simp [names, child?]
  | cons other below rest _ ih =>
      unfold names child?
      by_cases h : other = name
      · simp [h]
      · simp only [List.mem_cons, Ne.symm h, false_or, ih, h, if_false]

theorem lookup_faultsBelow {p : Property} {t : EntityType} (hp : T.property? p.name = some p)
    (ht : schema.targetType p = .ok t) :
    (faultsBelow schema expand T).lookup p.name = (expand.child? p.name).map (fault? schema t) := by
  induction expand with
  | nil => rfl
  | cons other below rest _ ih =>
      unfold faultsBelow child?
      by_cases h : other = p.name
      · subst h
        simp only [List.lookup_cons_self, if_true, Option.map_some, hp, ht]
        rfl
      · have hbeq : (p.name == other) = false := by simpa using Ne.symm h
        simp only [List.lookup_cons, hbeq, h, if_false]
        exact ih

theorem nameFault?_eq_none {name : String} :
    nameFault? T name = none ↔ ∃ p, T.property? name = some p ∧ p.isElementary = false := by
  unfold nameFault?
  cases T.property? name with
  | none => simp
  | some p => cases p.isElementary <;> simp

theorem fault?_eq_none (hs : schema.Accepted) (hT : T ∈ schema.types) :
    expand.fault? schema T = none ↔
      (∀ name sub, expand.child? name = some sub →
        ∃ p, T.property? name = some p ∧ p.isElementary = false) ∧
      ∀ name sub p t, expand.child? name = some sub → T.property? name = some p →
        schema.targetType p = .ok t → sub.fault? schema t = none := by
  unfold fault? levelFault?
  rw [Option.or_eq_none_iff, List.findSome?_eq_none_iff, List.findSome?_eq_none_iff]
  refine and_congr ?_ ?_
  · simp only [mem_names, nameFault?_eq_none]
    exact ⟨fun h name sub hc => h name ⟨sub, hc⟩, fun h name ⟨sub, hc⟩ => h name sub hc⟩
  · constructor
    · intro h name sub p t hc hp ht
      obtain ⟨hmem, rfl⟩ := EntityType.mem_of_property? hp
      have hfault := h p hmem
      rw [lookup_faultsBelow hp ht, hc] at hfault
      exact hfault
    · intro h p hp
      have hprop := hs.property? hT hp
      obtain ⟨⟨t, ht⟩, -⟩ := hs.checksOf hT hp
      rw [lookup_faultsBelow hprop ht]
      cases hc : expand.child? p.name with
      | none => rfl
      | some sub => exact h p.name sub p t hc hprop ht

theorem fault?_eq_none_iff (hs : schema.Accepted) (hT : T ∈ schema.types) (expand : ExpandTree) :
    expand.fault? schema T = none ↔ expand.Fits schema T := by
  constructor
  · intro hnone
    induction hsize : sizeOf expand using Nat.strong_induction_on generalizing expand T with
    | _ size ih =>
        obtain ⟨hnavigates, hbelow⟩ := (fault?_eq_none hs hT).mp hnone
        refine ⟨hnavigates, fun name sub p t hc hp ht => ?_⟩
        obtain ⟨p', hp', he⟩ := hnavigates name sub hc
        obtain rfl := Option.some.inj (hp.symm.trans hp')
        obtain ⟨t', ht', htarget⟩ := hs.targetType hT (EntityType.mem_of_property? hp).1 he
        obtain rfl := Except.ok.inj (ht.symm.trans htarget)
        exact ih _ (hsize ▸ sizeOf_child? hc) ht' sub (hbelow name sub p t hc hp ht) rfl
  · intro hfits
    induction hfits with
    | intro hnavigates _ ih =>
        refine (fault?_eq_none hs hT).mpr ⟨hnavigates, fun name sub p t hc hp ht => ?_⟩
        obtain ⟨p', hp', he⟩ := hnavigates name sub hc
        obtain rfl := Option.some.inj (hp.symm.trans hp')
        obtain ⟨t', ht', htarget⟩ := hs.targetType hT (EntityType.mem_of_property? hp).1 he
        obtain rfl := Except.ok.inj (ht.symm.trans htarget)
        exact ih name sub p t hc hp ht ht'

end ExpandTree

namespace Shape

variable {schema : Schema} {T : EntityType} {expand : ExpandTree} {ps : List Property} {shape : Shape}

/-- What a shape shows is asked for by branches that read properties of the schema. -/
theorem Shows.every {P : Branch → Prop} (hs : schema.Accepted)
    (hreads : ∀ T ∈ schema.types, ∀ p ∈ T.properties, ∀ b, b.Reads schema T p → P (.property b))
    (hT : T ∈ schema.types) (h : Shows schema expand ps shape) (hps : ∀ p ∈ ps, p ∈ T.properties) :
    ∃ forest, shape.forest schema T = .ok forest ∧ forest.Every P := by
  induction h generalizing T with
  | nil => exact ⟨.nil, rfl, trivial⟩
  | value _ _ ih =>
      obtain ⟨hp, hps⟩ := List.forall_mem_cons.mp hps
      obtain ⟨rest, hrest, hevery⟩ := ih hT hps
      obtain ⟨b, hb, hbranch⟩ := hs.ofProperty hT hp
      refine ⟨.cons (.property b) .nil rest, ?_, hreads T hT _ hp b hbranch, trivial, hevery⟩
      simp [Shape.forest, hb, hrest, bind, Except.bind, pure, Except.pure]
  | skip _ _ _ ih => exact ih hT (List.forall_mem_cons.mp hps).2
  | navigation he _ ht _ _ ihBelow ih =>
      obtain ⟨hp, hps⟩ := List.forall_mem_cons.mp hps
      obtain ⟨t', ht', htarget⟩ := hs.targetType hT hp he
      obtain rfl := Except.ok.inj (ht.symm.trans htarget)
      obtain ⟨inner, hinner, hbelow⟩ := ihBelow ht' fun _ => id
      obtain ⟨rest, hrest, hevery⟩ := ih hT hps
      obtain ⟨b, hb, hbranch⟩ := hs.ofProperty hT hp
      refine ⟨.cons (.property b) inner rest, ?_, hreads T hT _ hp b hbranch, hbelow, hevery⟩
      simp [Shape.forest, hb, hinner, hrest, bind, Except.bind, pure, Except.pure]

theorem Shows.made (hs : schema.Accepted) (hT : T ∈ schema.types) (h : Shows schema expand ps shape)
    (hps : ∀ p ∈ ps, p ∈ T.properties) :
    ∃ forest, shape.forest schema T = .ok forest ∧ forest.Made Branch.IsProperty := by
  obtain ⟨forest, hforest, hevery⟩ := h.every (P := Branch.IsProperty) hs (fun _ _ _ _ b _ => ⟨b, rfl⟩) hT hps
  exact ⟨forest, hforest, hevery.made⟩

end Shape

/-- A tree that fits is compiled, to the pattern of the shape it gives; one that does not fit is not. -/
theorem ExpandTree.compile_cases {schema : Schema} {T : EntityType} (hs : schema.Accepted)
    (hT : T ∈ schema.types) (expand : ExpandTree) (position : Position) (names : Naming) :
    (expand.Fits schema T ∧ ∃ shape forest pattern, Shape.ofExpand schema T expand = .ok shape ∧
      shape.forest schema T = .ok forest ∧ (forest.place Rule.builtin position names).failure = none ∧
      expand.compile schema Rule.builtin T position names =
        .ok (pattern, (forest.place Rule.builtin position names).names)) ∨
    (¬ expand.Fits schema T ∧ ∃ e, expand.compile schema Rule.builtin T position names =
      .error (.schema e)) := by
  rw [← fault?_eq_none_iff hs hT expand]
  unfold compile select
  cases hfault : expand.fault? schema T with
  | some e => exact Or.inr ⟨by simp, e, rfl⟩
  | none =>
      obtain ⟨shape, hshape⟩ := Shape.exists_ofExpand hs expand hT
      obtain ⟨forest, hforest, hmade⟩ := (Shape.shows_ofExpand hs hT hshape).made hs hT fun _ => id
      have hresolves : forest.Resolves names position.scope := hmade.resolves_properties
      obtain ⟨body, hbody⟩ := Forest.placeAll_ok hresolves
      refine Or.inl ⟨rfl, shape, forest, ⟨position.place.var, (classBody T).merge body⟩, hshape, hforest,
        hresolves.place, ?_⟩
      simp only [hshape, hforest, hbody, bind, Except.bind]

/-- A tree without a fault is compiled, which a look at its names decides. -/
theorem ExpandTree.exists_compile {schema : Schema} {T : EntityType} {expand : ExpandTree}
    (hs : schema.Accepted)
    (hT : T ∈ schema.types) (hfault : expand.fault? schema T = none) (position : Position) (names : Naming) :
    ∃ pattern names', expand.compile schema Rule.builtin T position names = .ok (pattern, names') := by
  obtain ⟨-, shape, forest, pattern, -, -, -, hok⟩ | ⟨hnot, -⟩ := expand.compile_cases hs hT position names
  · exact ⟨pattern, _, hok⟩
  · exact absurd ((expand.fault?_eq_none_iff hs hT).mp hfault) hnot

end EntityGraph
