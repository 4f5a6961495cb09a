import EntityGraph.Proofs.Expand.Anchored
import EntityGraph.Proofs.Pattern.Shared
import EntityGraph.Proofs.Read.Identified

/-!
# Forests of a type

A forest is of a type if it asks for properties of the type, and below its navigation properties for those of
the types they lead to. Placing it makes two kinds of names: foreign keys get the variables of the identifiers
that they copy, and the edges to a related entity are those of the navigation property, each with the flag of
the navigation property or of one of its foreign keys.

What is placed for a branch is in the pattern of every forest that has the branch.
-/
namespace EntityGraph

/-- The branches read properties of the type, and those below them properties of the types they lead to. -/
inductive Forest.OfType (schema : Schema) : Forest → EntityType → Prop
  | nil {T : EntityType} : OfType schema .nil T
  | value {T : EntityType} {p : Property} {b : PropertyBranch} {rest : Forest} (hp : p ∈ T.properties)
      (he : p.isElementary = true) (hreads : b.Reads schema T p) (h : OfType schema rest T) :
      OfType schema (.cons (.property b) .nil rest) T
  | navigation {T t : EntityType} {p : Property} {b : PropertyBranch} {below rest : Forest}
      (hp : p ∈ T.properties) (he : p.isElementary = false) (hreads : b.Reads schema T p)
      (ht : schema.targetType p = .ok t) (hbelow : OfType schema below t) (h : OfType schema rest T) :
      OfType schema (.cons (.property b) below rest) T

/-- The branches at the top, with what is asked for below them. -/
def Forest.branches : Forest → List (Branch × Forest)
  | nil => []
  | cons branch below rest => (branch, below) :: rest.branches

namespace Shape

variable {schema : Schema} {T t : EntityType} {expand sub : ExpandTree} {ps : List Property} {shape : Shape}
  {forest : Forest} {p : Property}

theorem Shows.ofType (hs : schema.Accepted) (h : Shows schema expand ps shape) (hT : T ∈ schema.types)
    (hps : ∀ p ∈ ps, p ∈ T.properties) (hforest : shape.forest schema T = .ok forest) :
    forest.OfType schema T := by
  induction h generalizing T forest with
  | nil =>
      obtain rfl : Forest.nil = forest := by simpa [Shape.forest] using hforest
      exact .nil
  | value he _ ih =>
      obtain ⟨hp, hps⟩ := List.forall_mem_cons.mp hps
      obtain ⟨b, others, hreads, hothers, rfl⟩ := forest_value hs hT hp hforest
      exact .value hp he hreads (ih hT hps hothers)
  | skip _ _ _ ih => exact ih hT (List.forall_mem_cons.mp hps).2 hforest
  | navigation he _ ht _ _ ihBelow ih =>
      obtain ⟨hp, hps⟩ := List.forall_mem_cons.mp hps
      obtain ⟨t', ht', htarget⟩ := hs.targetType hT hp he
      obtain rfl := Except.ok.inj (ht.symm.trans htarget)
      obtain ⟨b, inner, others, hreads, hinner, hothers, rfl⟩ := forest_navigation hs hT hp hforest
      exact .navigation hp he hreads ht (ihBelow ht' (fun _ => id) hinner) (ih hT hps hothers)

theorem Shows.branch_value (hs : schema.Accepted) (h : Shows schema expand ps shape) (hT : T ∈ schema.types)
    (hps : ∀ p ∈ ps, p ∈ T.properties) (hforest : shape.forest schema T = .ok forest) (hp : p ∈ ps)
    (he : p.isElementary = true) : ∃ b, b.Reads schema T p ∧ (.property b, .nil) ∈ forest.branches := by
  induction h generalizing forest with
  | nil => simp at hp
  | value _ _ ih =>
      obtain ⟨hp', hps⟩ := List.forall_mem_cons.mp hps
      obtain ⟨b, others, hreads, hothers, rfl⟩ := forest_value hs hT hp' hforest
      obtain rfl | hp := List.mem_cons.mp hp
      · exact ⟨b, hreads, List.mem_cons_self⟩
      · obtain ⟨b', hreads', hmem⟩ := ih hps hothers hp
        exact ⟨b', hreads', List.mem_cons_of_mem _ hmem⟩
  | skip he' _ _ ih =>
      obtain rfl | hp := List.mem_cons.mp hp
      · simp [he] at he'
      · exact ih (List.forall_mem_cons.mp hps).2 hforest hp
  | navigation he' _ _ _ _ _ ih =>
      obtain ⟨hp', hps⟩ := List.forall_mem_cons.mp hps
      obtain ⟨b, inner, others, -, -, hothers, rfl⟩ := forest_navigation hs hT hp' hforest
      obtain rfl | hp := List.mem_cons.mp hp
      · simp [he] at he'
      · obtain ⟨b', hreads', hmem⟩ := ih hps hothers hp
        exact ⟨b', hreads', List.mem_cons_of_mem _ hmem⟩

theorem Shows.branch_navigation (hs : schema.Accepted) (h : Shows schema expand ps shape)
    (hT : T ∈ schema.types)
    (hps : ∀ p ∈ ps, p ∈ T.properties) (hforest : shape.forest schema T = .ok forest) (hp : p ∈ ps)
    (he : p.isElementary = false) (hc : expand.child? p.name = some sub) (ht : schema.targetType p = .ok t) :
    ∃ b below inner, b.Reads schema T p ∧ Shows schema sub t.properties below ∧
      below.forest schema t = .ok inner ∧ (.property b, inner) ∈ forest.branches := by
  induction h generalizing forest with
  | nil => simp at hp
  | value he' _ ih =>
      obtain ⟨hp', hps⟩ := List.forall_mem_cons.mp hps
      obtain ⟨b, others, -, hothers, rfl⟩ := forest_value hs hT hp' hforest
      obtain rfl | hp := List.mem_cons.mp hp
      · simp [he] at he'
      · obtain ⟨b', below, inner, hreads, hbelow, hinner, hmem⟩ := ih hps hothers hp hc
        exact ⟨b', below, inner, hreads, hbelow, hinner, List.mem_cons_of_mem _ hmem⟩
  | skip _ hnone _ ih =>
      obtain rfl | hp := List.mem_cons.mp hp
      · simp [hc] at hnone
      · exact ih (List.forall_mem_cons.mp hps).2 hforest hp hc
  | navigation _ hc' ht' hbelow _ _ ih =>
      obtain ⟨hp', hps⟩ := List.forall_mem_cons.mp hps
      obtain ⟨b, inner, others, hreads, hinner, hothers, rfl⟩ := forest_navigation hs hT hp' hforest
      obtain rfl | hp := List.mem_cons.mp hp
      · obtain rfl := Option.some.inj (hc.symm.trans hc')
        obtain rfl := Except.ok.inj (ht.symm.trans ht')
        exact ⟨b, _, inner, hreads, hbelow, hinner, List.mem_cons_self⟩
      · obtain ⟨b', below, inner, hreads, hbelow, hinner, hmem⟩ := ih hps hothers hp hc
        exact ⟨b', below, inner, hreads, hbelow, hinner, List.mem_cons_of_mem _ hmem⟩

end Shape

theorem Route.tidy_wrap (route : Route) {B : Body} (hB : B.Tidy) : (route.wrap B).Tidy := by
  induction route with
  | nil => exact hB
  | cons step rest ih =>
      cases step with
      | slot => exact ⟨fun _ => rfl, ih, trivial⟩
      | alternative => exact ⟨by simp, ih, trivial⟩
      | edge e => exact ⟨by simp [Body.edges], ih, trivial⟩
      | conjunct own => exact ⟨ih, trivial⟩

namespace Forest

variable {schema : Schema} {forest below : Forest} {branch : Branch} {position : Position} {names : Naming}

theorem place_tidy : (forest.place Rule.builtin position names).body.Tidy := by
  induction forest generalizing position names with
  | nil => trivial
  | cons branch below rest ihBelow ih =>
      rw [place_cons]
      split
      · trivial
      · next placement _ =>
          have hhead := placement.route.tidy_wrap (@ihBelow placement.position placement.names)
          simp only
          split
          · exact hhead
          · exact hhead.merge ih

theorem place_within (h : (branch, below) ∈ forest.branches)
    (hplaced : (forest.place Rule.builtin position names).failure = none) :
    ∃ before placement inner, names.Keeps before ∧ branch.placement position before = .ok placement ∧
      inner = below.place Rule.builtin placement.position placement.names ∧ inner.failure = none ∧
      inner.names.Grows (forest.place Rule.builtin position names).names ∧
      (placement.route.wrap inner.body).Within (forest.place Rule.builtin position names).body := by
  induction forest generalizing names with
  | nil => simp [branches] at h
  | cons first there rest _ ih =>
      obtain ⟨placement, inner, after, hplacement, hinner, hfailure, hafter, hnone, hbody⟩ :=
        place_cons_ok hplaced
      rw [hbody]
      have hkeeps : inner.names.Keeps after.names := hafter ▸ place_keeps
      obtain heq | h := List.mem_cons.mp h
      · obtain ⟨rfl, rfl⟩ := Prod.mk.inj heq
        exact ⟨names, placement, inner, .refl names, hplacement, hinner, hfailure, hkeeps.grows,
          Body.within_merge_left _ _⟩
      · subst hafter
        obtain ⟨before, placement', inner', hbefore, hplacement', hinner', hfailure', hgrows,
          hwithin⟩ := ih h hnone
        have hearlier := (Branch.placement_keeps hplacement).trans (hinner ▸ place_keeps)
        exact ⟨before, placement', inner', hearlier.trans hbefore, hplacement', hinner', hfailure', hgrows,
          hwithin.trans (Body.within_merge_right _ _)⟩

end Forest

namespace Naming

variable {names names' : Naming} {kind : Nat → Option EntityType} {q q' : Place} {name name' v var : String}

theorem value?_relatedPlace : (names.relatedPlace q name).2.value? q' name' = names.value? q' name' := by
  unfold relatedPlace
  split <;> rfl

theorem value?_of_value (h : (names.value q name).2.value? q' name' = some v) :
    names.value? q' name' = some v ∨ q' = q ∧ name' = name := by
  unfold value at h
  split at h
  · exact Or.inl h
  · obtain hold | ⟨rfl, rfl, -⟩ := lookup_of_append h
    · exact Or.inl hold
    · exact Or.inr ⟨rfl, rfl⟩

theorem value?_of_link (h : (names.link q name var).2.value? q' name' = some v) :
    names.value? q' name' = some v ∨ q' = q ∧ name' = name ∧ v = var := by
  unfold link at h
  split at h
  · exact Or.inl h
  · obtain hold | ⟨rfl, rfl, rfl, -⟩ := lookup_of_append h
    · exact Or.inl hold
    · exact Or.inr ⟨rfl, rfl, rfl⟩

/-- A foreign key that has a variable has that of the identifier of the related entity. An identifier that is
a foreign key itself may have got its variable before, as the identifier that another foreign key copies. -/
def Copies (names : Naming) (kind : Nat → Option EntityType) : Prop :=
  ∀ q T f navigation v, kind q.number = some T → f ∈ T.properties → f.name ≠ idName →
    f.foreignKeyOf = some navigation → names.value? q f.name = some v →
      ∃ r, names.related? q navigation = some r ∧ names.value? r idName = some v

/-- One foreign key of one entity: if it has a variable, then that of the identifier of the related entity. -/
def CopiesAt (names : Naming) (q : Place) (key navigation : String) : Prop :=
  ∀ v, names.value? q key = some v → ∃ r, names.related? q navigation = some r ∧
    names.value? r idName = some v

theorem CopiesAt.keeps {key navigation : String} (h : names.CopiesAt q key navigation)
    (hkeeps : names.Keeps names') (hnew : ∀ v, names'.value? q key = some v → names.value? q key = some v ∨
      ∃ r, names'.related? q navigation = some r ∧ names'.value? r idName = some v) :
    names'.CopiesAt q key navigation := by
  intro v hv
  obtain hv | hcopied := hnew v hv
  · obtain ⟨r, hr, hid⟩ := h v hv
    exact ⟨r, hkeeps.related hr, hkeeps.value hid⟩
  · exact hcopied

end Naming

section Copies

variable {schema : Schema} {T R : EntityType} {position : Position} {names names' : Naming}
  {kind : Nat → Option EntityType} {q : Place} {f : Property} {navigation : String}

/-- Placing a property makes up variables for values that are no foreign keys and for identifiers of related
entities, and links foreign keys. So a foreign key has no variable of its own, unless it is the identifier of
an entity that is related to another one. -/
theorem Branch.placement_copies (hs : schema.Accepted) (hT : T ∈ schema.types) {p : Property}
    (hp : p ∈ T.properties) {b : PropertyBranch} (hreads : b.Reads schema T p)
    (hkind : kind position.place.number = some T) {placement : Placement}
    (hplaced : (Branch.property b).placement position names = .ok placement)
    (hgrows : placement.names.Grows names') (hq : kind q.number = some R) (hf : f ∈ R.properties)
    (hkey : f.foreignKeyOf = some navigation)
    (hfree : f.name ≠ idName ∨ ∀ a name, names'.related? a name ≠ some q)
    (h : names.CopiesAt q f.name navigation) : placement.names.CopiesAt q f.name navigation := by
  -- a property of the entity that has the name of the branch is the one that the branch reads
  have hsame : q = position.place → f.name = b.name → f = p := by
    rintro rfl hname
    obtain rfl := Option.some.inj (hq.symm.trans hkind)
    have hlookup := hs.property? hT hf
    rw [hname, hreads.name, hs.property? hT hp] at hlookup
    exact (Option.some.inj hlookup).symm
  refine h.keeps (placement_keeps hplaced) fun v hv => ?_
  cases hc : b.isComplex with
  | true =>
      rw [placement_related hc] at hplaced
      obtain rfl := Except.ok.inj hplaced
      exact Or.inl (Naming.value?_relatedPlace ▸ hv)
  | false =>
      obtain ⟨hnone, hk⟩ | ⟨related, -, t, -, i, -, hop, -, hown, -, -, -, -, -, hk⟩ :=
        hreads.foreignKey
      · rw [placement_value hc hk] at hplaced
        obtain rfl := Except.ok.inj hplaced
        obtain hold | ⟨rfl, hname⟩ := Naming.value?_of_value hv
        · exact Or.inl hold
        · obtain rfl := hsame rfl hname
          simp [hnone] at hkey
      · rw [placement_foreignKey hc hk rfl rfl] at hplaced
        obtain rfl := Except.ok.inj hplaced
        have hrelated := (Naming.keeps_relatedPlace names position.place related.name).2
        obtain ⟨hlater, hid⟩ := Naming.keeps_value (names.relatedPlace position.place related.name).2
          (names.relatedPlace position.place related.name).1 idName
        have hlink := Naming.keeps_link (Naming.value (names.relatedPlace position.place related.name).2
          (names.relatedPlace position.place related.name).1 idName).2 position.place b.name
          (Naming.value (names.relatedPlace position.place related.name).2
            (names.relatedPlace position.place related.name).1 idName).1
        have hr := hlink.related (hlater.related hrelated)
        obtain hold | ⟨rfl, hname, rfl⟩ := Naming.value?_of_link hv
        · obtain hold | ⟨rfl, hid⟩ := Naming.value?_of_value hold
          · exact Or.inl (Naming.value?_relatedPlace ▸ hold)
          · exact absurd (hgrows.related hr) (hfree.resolve_left (not_not_intro hid) _ _)
        · obtain rfl := hsame rfl hname
          obtain rfl := Option.some.inj (hkey.symm.trans hown)
          exact Or.inr ⟨_, hr, hlink.value hid⟩

theorem Branch.placement_kind (hs : schema.Accepted) (hT : T ∈ schema.types) {p : Property}
    (hp : p ∈ T.properties) (he : p.isElementary = false) {b : PropertyBranch} (hreads : b.Reads schema T p)
    {t : EntityType} (ht : schema.targetType p = .ok t) {placement : Placement}
    (hplaced : (Branch.property b).placement position names = .ok placement) {names' : Naming}
    (hgrows : placement.names.Grows names') (hlabel : names'.Labelled schema.kinds kind)
    (hkind : kind position.place.number = some T) :
    names'.related? position.place p.name = some placement.position.place ∧
      kind placement.position.place.number = some t := by
  have hc : b.isComplex = true := by rw [hreads.isComplex, he]; rfl
  rw [placement_related hc] at hplaced
  obtain rfl := Except.ok.inj hplaced
  have hr := hgrows.related (Naming.keeps_relatedPlace names position.place b.name).2
  rw [hreads.name] at hr ⊢
  exact ⟨hr, by rw [(hlabel.related hr).2.2, hkind, hs.kinds_related hT hp ht]⟩

theorem Forest.OfType.place_copiesAt (hs : schema.Accepted) {forest : Forest} (h : forest.OfType schema T)
    (hT : T ∈ schema.types) (hplaced : (forest.place Rule.builtin position names).failure = none)
    (hgrows : (forest.place Rule.builtin position names).names.Grows names')
    (hlabel : names'.Labelled schema.kinds kind) (hkind : kind position.place.number = some T)
    (hq : kind q.number = some R) (hf : f ∈ R.properties) (hkey : f.foreignKeyOf = some navigation)
    (hfree : f.name ≠ idName ∨ ∀ a name, names'.related? a name ≠ some q)
    (hcopies : names.CopiesAt q f.name navigation) :
    (forest.place Rule.builtin position names).names.CopiesAt q f.name navigation := by
  induction h generalizing position names with
  | nil => exact hcopies
  | value hp _ hreads _ ih =>
      obtain ⟨placement, _, _, hplacement, rfl, -, rfl, hafter, hbody⟩ := place_cons_ok hplaced
      rw [hbody] at hgrows ⊢
      exact ih hT hafter hgrows hkind (Branch.placement_copies hs hT hp hreads hkind hplacement
        (place_keeps.grows.trans hgrows) hq hf hkey hfree hcopies)
  | navigation hp he hreads ht _ _ ihBelow ih =>
      obtain ⟨t', ht', htarget⟩ := hs.targetType hT hp he
      obtain rfl := Except.ok.inj (ht.symm.trans htarget)
      obtain ⟨placement, _, _, hplacement, rfl, hfailure, rfl, hafter, hbody⟩ := place_cons_ok hplaced
      rw [hbody] at hgrows ⊢
      have hinside := place_keeps.grows.trans hgrows
      have hnames := place_keeps.grows.trans hinside
      have hstep := Branch.placement_copies hs hT hp hreads hkind hplacement hnames hq hf hkey hfree hcopies
      have htype := (Branch.placement_kind hs hT hp he hreads ht hplacement hnames hlabel hkind).2
      exact ih hT hafter hgrows hkind (ihBelow ht' hfailure hinside htype hstep)

theorem Forest.OfType.place_copies (hs : schema.Accepted) {forest : Forest} (h : forest.OfType schema T)
    (hT : T ∈ schema.types) (hplaced : (forest.place Rule.builtin position names).failure = none)
    (hgrows : (forest.place Rule.builtin position names).names.Grows names')
    (hlabel : names'.Labelled schema.kinds kind) (hkind : kind position.place.number = some T)
    (hcopies : names.Copies kind) : (forest.place Rule.builtin position names).names.Copies kind :=
  fun q _ f navigation v hq hf hne hkey => h.place_copiesAt hs hT hplaced hgrows hlabel hkind hq hf
    hkey (.inl hne) (fun v => hcopies q _ f navigation v hq hf hne hkey) v

end Copies

/-- The edges to the entity that a single-valued navigation property leads to are those of the property, each
with the flag of the property itself or of one of its foreign keys. -/
def Body.declared (schema : Schema) (names : Naming) (kind : Nat → Option EntityType) : Body.Condition where
  leaf _ _ _ := True
  edge root e := ∀ q T n r, root = q.var → kind q.number = some T → T ∈ schema.types → n ∈ T.properties →
    n.isElementary = false → n.isSingle = true → names.related? q n.name = some r → e.target = r.var →
      schema.hop n = .ok e.hop ∧
        ∃ p ∈ T.properties, (p = n ∨ p.foreignKeyOf = some n.name) ∧ e.isOptional = p.isOptional
  conjunct _ _ := True

section Declared

variable {schema : Schema} {T : EntityType} {position : Position} {names names' : Naming}
  {kind : Nat → Option EntityType} {source : Nat → Option (Place × String)}

theorem Body.declared_value (hs : schema.Accepted) (hlabel : names.Labelled schema.kinds kind) {q : Place}
    {name v : String} (hv : names.value? q name = some v) (root : String) (hop : Hop) (isOptional : Bool) :
    (Body.declared schema names kind).edge root ⟨hop, isOptional, v⟩ := by
  intro q' T' n r _ hkind hT hn he _ hr htarget
  obtain ⟨t, -, ht⟩ := hs.targetType hT hn he
  obtain ⟨k, rfl, -, -, hnone⟩ := hlabel.value hv
  obtain rfl : k = r.number := variableName_injective htarget
  rw [(hlabel.related hr).2.2, hkind, hs.kinds_related hT hn ht] at hnone
  simp [Schema.kinds] at hnone

theorem Body.declared_related (hs : schema.Accepted) (hsource : names.Sourced source) {q r : Place}
    (hkind : kind q.number = some T) {n : Property} (hn : n ∈ T.properties)
    (hr : names.related? q n.name = some r) {hop : Hop} (hh : schema.hop n = .ok hop) {p : Property}
    (hp : p ∈ T.properties) (hrelated : p = n ∨ p.foreignKeyOf = some n.name) {isOptional : Bool}
    (hopt : n.isSingle = true → isOptional = p.isOptional) :
    (Body.declared schema names kind).edge q.var ⟨hop, isOptional, r.var⟩ := by
  intro q' T' n' r' hroot hkind' hT' hn' _ hsingle hr' htarget
  obtain rfl : q = q' := congrArg Place.mk (variableName_injective hroot)
  obtain rfl : r = r' := congrArg Place.mk (variableName_injective htarget)
  obtain rfl := Option.some.inj (hkind.symm.trans hkind')
  obtain rfl : n = n' := by
    have hname : n.name = n'.name := (hsource.related_unique hr hr').2
    have hlookup := hs.property? hT' hn'
    rw [← hname, hs.property? hT' hn] at hlookup
    exact Option.some.inj hlookup
  exact ⟨hh, p, hp, hrelated, hopt hsingle⟩

theorem Branch.placement_declared (hs : schema.Accepted) {p : Property} (hp : p ∈ T.properties)
    {b : PropertyBranch} (hreads : b.Reads schema T p) {placement : Placement}
    (hplaced : (Branch.property b).placement position names = .ok placement)
    (hgrows : placement.names.Grows names') (hlabel : names'.Labelled schema.kinds kind)
    (hsource : names'.Sourced source) (hkind : kind position.place.number = some T) {inner : Body}
    (hnil : b.isComplex = false → inner = .nil)
    (hinner : inner.Each (Body.declared schema names' kind) placement.position.place.var) :
    (placement.route.wrap inner).Each (Body.declared schema names' kind) position.place.var := by
  cases hc : b.isComplex with
  | true =>
      have he : p.isElementary = false := by simpa [hc] using hreads.isComplex
      rw [placement_related hc] at hplaced
      obtain rfl := Except.ok.inj hplaced
      have hr := hgrows.related (Naming.keeps_relatedPlace names position.place b.name).2
      rw [hreads.name] at hr hinner ⊢
      have hopt : p.isSingle = true → (!(b.isSingle && b.isMandatory)) = p.isOptional := fun hsingle => by
        simp [hreads.isSingle, hsingle, hreads.isMandatory, Property.isMandatory]
      have hedge := Body.declared_related hs hsource hkind hp hr (hreads.relatedHop he) hp (Or.inl rfl) hopt
      split <;> exact ⟨⟨hedge, hinner, trivial⟩, trivial⟩
  | false =>
      obtain rfl := hnil hc
      obtain ⟨-, hk⟩ | ⟨n, hn, t, -, i, -, hop, -, hown, -, -, -, hh, -, hk⟩ := hreads.foreignKey
      · rw [placement_value hc hk] at hplaced
        obtain rfl := Except.ok.inj hplaced
        have hedge := Body.declared_value hs hlabel
          (hgrows.value (Naming.keeps_value names position.place b.name).2)
          position.place.var ⟨b.hop.predicate, false⟩ !b.isMandatory
        cases !b.isId && b.isMandatory with
        | true => exact ⟨⟨hedge, trivial, trivial⟩, trivial⟩
        | false => exact ⟨hedge, trivial, trivial⟩
      · rw [placement_foreignKey hc hk rfl rfl] at hplaced
        obtain rfl := Except.ok.inj hplaced
        have hlink := (Naming.keeps_link _ position.place b.name _).grows.trans hgrows
        obtain ⟨hkeeps, hid⟩ := Naming.keeps_value (names.relatedPlace position.place n.name).2
          (names.relatedPlace position.place n.name).1 idName
        have hr := hlink.related (hkeeps.related (Naming.keeps_relatedPlace names position.place n.name).2)
        refine ⟨⟨?_, ⟨Body.declared_value hs hlabel (hlink.value hid) _ _ _, trivial, trivial⟩,
          trivial⟩, trivial⟩
        refine Body.declared_related hs hsource hkind hn hr hh hp (Or.inr hown) fun _ => ?_
        simp [hreads.isMandatory, Property.isMandatory]

theorem Forest.OfType.place_declared (hs : schema.Accepted) {forest : Forest} (h : forest.OfType schema T)
    (hT : T ∈ schema.types) (hplaced : (forest.place Rule.builtin position names).failure = none)
    (hgrows : (forest.place Rule.builtin position names).names.Grows names')
    (hlabel : names'.Labelled schema.kinds kind) (hsource : names'.Sourced source)
    (hkind : kind position.place.number = some T) :
    (forest.place Rule.builtin position names).body.Each (Body.declared schema names' kind)
      position.place.var := by
  induction h generalizing position names with
  | nil => trivial
  | value hp he hreads _ ih =>
      obtain ⟨placement, _, _, hplacement, rfl, -, rfl, hafter, hbody⟩ := place_cons_ok hplaced
      rw [hbody] at hgrows ⊢
      refine .merge ?_ (ih hT hafter hgrows hkind)
      exact Branch.placement_declared hs hp hreads hplacement
        (place_keeps.grows.trans hgrows) hlabel hsource hkind (fun _ => rfl) trivial
  | navigation hp he hreads ht _ _ ihBelow ih =>
      obtain ⟨t', ht', htarget⟩ := hs.targetType hT hp he
      obtain rfl := Except.ok.inj (ht.symm.trans htarget)
      obtain ⟨placement, _, _, hplacement, rfl, hfailure, rfl, hafter, hbody⟩ := place_cons_ok hplaced
      rw [hbody] at hgrows ⊢
      have hinside := place_keeps.grows.trans hgrows
      have hnames := place_keeps.grows.trans hinside
      have htype := (Branch.placement_kind hs hT hp he hreads ht hplacement hnames hlabel hkind).2
      refine .merge ?_ (ih hT hafter hgrows hkind)
      refine Branch.placement_declared hs hp hreads hplacement hnames hlabel hsource hkind (fun hc => ?_)
        (ihBelow ht' hfailure hinside htype)
      simp [hreads.isComplex, he] at hc

end Declared
end EntityGraph
