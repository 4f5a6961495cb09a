import EntityGraph.Placement.Forest
import EntityGraph.Proofs.Schema.Accepted

/-!
# Placing one branch

The rules cover all branches and do not overlap, so that together they are one function. Only a
lambda variable that is not bound can keep a branch from being placed.

What a branch of an accepted schema says of its property is collected in `PropertyBranch.Reads`.
-/
namespace EntityGraph

def Branch.placement (position : Position) (names : Naming) : Branch → Except PlacementError Placement
  | .property b =>
    if b.isComplex then
      let (related, names) := names.relatedPlace position.place b.name
      .ok {
        route := [if b.isSingle then .slot else .alternative,
          .edge ⟨b.hop, !(b.isSingle && b.isMandatory), related.var⟩]
        position := { position with place := related }
        names }
    else
      match b.foreignKey with
      | none =>
        let (var, names) := names.value position.place b.name
        .ok {
          route := (if !b.isId && b.isMandatory then [.slot] else []) ++
            [.edge ⟨⟨b.hop.predicate, false⟩, !b.isMandatory, var⟩]
          position
          names }
      | some key =>
        let (related, names) := names.relatedPlace position.place key.navigation
        let (idVar, names) := names.value related idName
        let (_, names) := names.link position.place b.name idVar
        .ok {
          route := [.slot, .edge ⟨key.hop, !b.isMandatory, related.var⟩,
            .edge ⟨⟨key.idPredicate, false⟩, false, idVar⟩]
          position
          names }
  | .lambda name _ =>
    match names.resolve position.scope name with
    | .error e => .error (.scope e)
    | .ok found => .ok {
        route := [.conjunct found.place.var]
        position := { position with place := found.place }
        names }
  | .any a =>
    match names.resolve (position.scope.enter a.key) a.lambda with
    | .error e => .error (.scope e)
    | .ok found => .ok {
        route := [.edge ⟨a.hop, true, found.place.var⟩]
        position := ⟨found.place, position.scope.enter a.key⟩
        names }

namespace Branch

variable {position : Position} {names : Naming} {b : PropertyBranch}

theorem placement_related (h : b.isComplex = true) :
    (property b).placement position names = .ok {
      route := [if b.isSingle then .slot else .alternative, .edge ⟨b.hop,
        !(b.isSingle && b.isMandatory), (names.relatedPlace position.place b.name).1.var⟩]
      position := { position with place := (names.relatedPlace position.place b.name).1 }
      names := (names.relatedPlace position.place b.name).2 } := by
  simp only [placement, h, if_true]

theorem placement_value (h : b.isComplex = false) (hk : b.foreignKey = none) :
    (property b).placement position names = .ok {
      route := (if !b.isId && b.isMandatory then [.slot] else []) ++ [.edge ⟨⟨b.hop.predicate, false⟩,
        !b.isMandatory, (names.value position.place b.name).1⟩]
      position
      names := (names.value position.place b.name).2 } := by
  simp only [placement, h, hk, Bool.false_eq_true, if_false]

theorem placement_foreignKey (h : b.isComplex = false) {key : ForeignKey}
    (hk : b.foreignKey = some key) {related : Place} {names₁ names₂ : Naming} {idVar : String}
    (h₁ : names.relatedPlace position.place key.navigation = (related, names₁))
    (h₂ : names₁.value related idName = (idVar, names₂)) :
    (property b).placement position names = .ok {
      route := [.slot, .edge ⟨key.hop, !b.isMandatory, related.var⟩,
        .edge ⟨⟨key.idPredicate, false⟩, false, idVar⟩]
      position
      names := (names₂.link position.place b.name idVar).2 } := by
  simp only [placement, h, hk, h₁, h₂, Bool.false_eq_true, if_false]

theorem placement_lambda {name type : String} {found : Namespace}
    (h : names.resolve position.scope name = .ok found) :
    (lambda name type).placement position names = .ok {
      route := [.conjunct found.place.var]
      position := { position with place := found.place }
      names } := by
  simp only [placement, h]

theorem placement_any {a : AnyBranch} {found : Namespace}
    (h : names.resolve (position.scope.enter a.key) a.lambda = .ok found) :
    (any a).placement position names = .ok {
      route := [.edge ⟨a.hop, true, found.place.var⟩]
      position := ⟨found.place, position.scope.enter a.key⟩
      names } := by
  simp only [placement, h]

end Branch

namespace Rule

theorem place_eq_placement (branch : Branch) (position : Position) (names : Naming) :
    ((choose builtin branch).bind fun rule => rule.place branch position names) =
      branch.placement position names := by
  cases branch with
  | lambda name entityType => rfl
  | any a => rfl
  | property b =>
      obtain ⟨name, hop, isComplex, isMandatory, isSingle, foreignKey⟩ := b
      cases isComplex with
      | true => cases isSingle <;> cases isMandatory <;> rfl
      | false =>
          cases foreignKey with
          | some key => rfl
          | none =>
              cases isMandatory with
              | false =>
                  simp [choose, builtin, elementaryId, mandatoryElementary, optionalElementary,
                    ownValue?, placeValue, Branch.placement, Except.bind, Option.any]
              | true =>
                  cases hid : (PropertyBranch.mk name hop false true isSingle none).isId <;>
                    simp [choose, builtin, elementaryId, mandatoryElementary, ownValue?, placeValue,
                      Branch.placement, Except.bind, Option.any, hid]

end Rule

theorem Forest.place_nil (position : Position) (names : Naming) :
    Forest.nil.place Rule.builtin position names = ⟨.nil, names, none⟩ := rfl

theorem Forest.place_cons (branch : Branch) (below rest : Forest) (position : Position)
    (names : Naming) :
    (Forest.cons branch below rest).place Rule.builtin position names =
      match branch.placement position names with
      | .error e => ⟨.nil, names, some e⟩
      | .ok placement =>
        let inner := below.place Rule.builtin placement.position placement.names
        let body := placement.route.wrap inner.body
        match inner.failure with
        | some e => ⟨body, inner.names, some e⟩
        | none =>
          let after := rest.place Rule.builtin position inner.names
          ⟨body.merge after.body, after.names, after.failure⟩ := by
  cases hplaced : branch.placement position names with
  | error e => simp only [Forest.place, Rule.place_eq_placement, hplaced]
  | ok placement =>
      cases hinner : (below.place Rule.builtin placement.position placement.names).failure with
      | some e => simp only [Forest.place, Rule.place_eq_placement, hplaced, hinner]
      | none => simp only [Forest.place, Rule.place_eq_placement, hplaced, hinner]

/-- The branch says what the schema says of the property. -/
structure PropertyBranch.Reads (schema : Schema) (T : EntityType) (p : Property)
    (b : PropertyBranch) : Prop where
  name : b.name = p.name
  isComplex : b.isComplex = !p.isElementary
  isMandatory : b.isMandatory = p.isMandatory
  isSingle : b.isSingle = p.isSingle
  valueHop : p.isElementary = true → b.hop = ⟨p.predicate, false⟩
  relatedHop : p.isElementary = false → schema.hop p = .ok b.hop
  foreignKey : (p.foreignKeyOf = none ∧ b.foreignKey = none) ∨
    ∃ related ∈ T.properties, ∃ t ∈ schema.types, ∃ relatedId ∈ t.properties, ∃ h,
      p.isElementary = true ∧ p.foreignKeyOf = some related.name ∧ related.isElementary = false ∧
      related.isSingle = true ∧ schema.targetType related = .ok t ∧ schema.hop related = .ok h ∧
      t.property? idName = some relatedId ∧
      b.foreignKey = some ⟨related.name, h, relatedId.predicate⟩

namespace Schema.Accepted

variable {schema : Schema} {T : EntityType} {p : Property}

theorem ofProperty (hs : schema.Accepted) (hT : T ∈ schema.types) (hp : p ∈ T.properties) :
    ∃ b, Branch.ofProperty schema T p = .ok (.property b) ∧ b.Reads schema T p := by
  obtain ⟨hop, hvalue, hrelated⟩ : ∃ hop, (p.isElementary = true → hop = ⟨p.predicate, false⟩) ∧
      (p.isElementary = false → schema.hop p = .ok hop) := by
    obtain ⟨h, hh⟩ := hs.hop hT hp
    cases he : p.isElementary with
    | true => exact ⟨_, fun _ => rfl, by simp⟩
    | false => exact ⟨h, by simp, fun _ => hh⟩
  obtain ⟨hnone, hkey⟩ | ⟨related, hrel, t, ht, i, hi, helem, hname, hrelem, hsingle, htarget, hid, hkey⟩ :=
    hs.foreignKey? hT hp
  · refine ⟨⟨p.name, hop, !p.isElementary, p.isMandatory, p.isSingle, none⟩, ?_,
      rfl, rfl, rfl, rfl, hvalue, hrelated, Or.inl ⟨hnone, rfl⟩⟩
    cases he : p.isElementary with
    | true => simp [Branch.ofProperty, he, hkey, hvalue he, bind, Except.bind, pure, Except.pure]
    | false => simp [Branch.ofProperty, he, hkey, hrelated he, bind, Except.bind, pure, Except.pure]
  · obtain ⟨rh, hrh⟩ := hs.hop hT hrel
    refine ⟨⟨p.name, hop, !p.isElementary, p.isMandatory, p.isSingle,
      some ⟨related.name, rh, i.predicate⟩⟩, ?_, rfl, rfl, rfl, rfl, hvalue, hrelated,
      Or.inr ⟨related, hrel, t, ht, i, hi, rh, helem, hname, hrelem, hsingle, htarget, hrh, hid, rfl⟩⟩
    simp [Branch.ofProperty, helem, hkey, hrh, hvalue helem, bind, Except.bind, pure, Except.pure]

theorem reads_of_ofProperty (hs : schema.Accepted) (hT : T ∈ schema.types) (hp : p ∈ T.properties)
    {branch : Branch} (h : Branch.ofProperty schema T p = .ok branch) :
    ∃ b, branch = .property b ∧ b.Reads schema T p := by
  obtain ⟨b, hb, hreads⟩ := hs.ofProperty hT hp
  exact ⟨b, Except.ok.inj (h.symm.trans hb), hreads⟩

theorem reads_unique (hs : schema.Accepted) (hT : T ∈ schema.types) {b : PropertyBranch}
    {p' : Property} (hp : p ∈ T.properties) (hp' : p' ∈ T.properties) (h : b.Reads schema T p)
    (h' : b.Reads schema T p') : p = p' := by
  have heq := hs.property? hT hp
  rw [← h.name, h'.name, hs.property? hT hp'] at heq
  exact (Option.some.inj heq).symm

end Schema.Accepted
end EntityGraph
