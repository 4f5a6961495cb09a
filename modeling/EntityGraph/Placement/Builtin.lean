import EntityGraph.Placement.Rule

/-!
# The placement rules

Every branch has exactly one rule. Identifiers are plain edges of the entity itself, so that
every solution has them. Other single values share the slot, each collection gets an
alternative of its own, and a foreign key is read at the related entity, over the same edge
as an expansion of that entity.
-/
namespace EntityGraph.Rule

def ownValue? : Branch → Option PropertyBranch
  | .property p => if !p.isComplex && p.foreignKey.isNone then some p else none
  | _ => none

def placeValue (lead : Route) (isOptional : Bool) (branch : Branch) (position : Position)
    (names : Naming) : Except PlacementError Placement :=
  match branch with
  | .property p =>
    let (var, names) := names.value position.place p.name
    .ok { route := lead ++ [.edge ⟨⟨p.hop.predicate, false⟩, isOptional, var⟩], position, names }
  | _ => .error (.noRule branch)

def elementaryId : Rule where
  name := "elementary-id"
  applies branch := (ownValue? branch).any fun p => p.isId && p.isMandatory
  place := placeValue [] false

def mandatoryElementary : Rule where
  name := "mandatory-elementary"
  applies branch := (ownValue? branch).any fun p => !p.isId && p.isMandatory
  place := placeValue [.slot] false

def optionalElementary : Rule where
  name := "optional-elementary"
  applies branch := (ownValue? branch).any fun p => !p.isMandatory
  place := placeValue [] true

def foreignKeyElementary : Rule where
  name := "mirrored-elementary"
  applies
    | .property p => !p.isComplex && p.foreignKey.isSome
    | _ => false
  place branch position names :=
    match branch with
    | .property p =>
      match p.foreignKey with
      | none => .error (.noRule branch)
      | some key =>
        let (related, names) := names.relatedPlace position.place key.navigation
        let (idVar, names) := names.value related idName
        let (_, names) := names.link position.place p.name idVar
        .ok {
          route := [.slot, .edge ⟨key.hop, !p.isMandatory, related.var⟩,
            .edge ⟨⟨key.idPredicate, false⟩, false, idVar⟩]
          position
          names }
    | _ => .error (.noRule branch)

def placeRelated (lead : Step) (isOptional : PropertyBranch → Bool) (branch : Branch)
    (position : Position) (names : Naming) : Except PlacementError Placement :=
  match branch with
  | .property p =>
    let (related, names) := names.relatedPlace position.place p.name
    .ok {
      route := [lead, .edge ⟨p.hop, isOptional p, related.var⟩]
      position := { position with place := related }
      names }
  | _ => .error (.noRule branch)

def singleValuedComplex : Rule where
  name := "single-valued-complex"
  applies
    | .property p => p.isComplex && p.isSingle
    | _ => false
  place := placeRelated .slot fun p => !p.isMandatory

def multiValuedComplex : Rule where
  name := "multi-valued-complex"
  applies
    | .property p => p.isComplex && !p.isSingle
    | _ => false
  place := placeRelated .alternative fun _ => true

/-- What is asked for at a lambda variable stands in a conjunct at the entity it is bound to. -/
def inScopeVariable : Rule where
  name := "in-scope-variable"
  applies
    | .lambda _ _ => true
    | _ => false
  place branch position names :=
    match branch with
    | .lambda name _ =>
      match names.resolve position.scope name with
      | .error e => .error (.scope e)
      | .ok found => .ok {
          route := [.conjunct found.place.var]
          position := { position with place := found.place }
          names }
    | _ => .error (.noRule branch)

/-- The elements of a collection, in the scope where the lambda variable is bound to them. -/
def anyElement : Rule where
  name := "any"
  applies
    | .any _ => true
    | _ => false
  place branch position names :=
    match branch with
    | .any a =>
      let inner := position.scope.enter a.key
      match names.resolve inner a.lambda with
      | .error e => .error (.scope e)
      | .ok found => .ok {
          route := [.edge ⟨a.hop, true, found.place.var⟩]
          position := ⟨found.place, inner⟩
          names }
    | _ => .error (.noRule branch)

def builtin : List Rule :=
  [elementaryId, mandatoryElementary, optionalElementary, foreignKeyElementary,
   singleValuedComplex, multiValuedComplex, inScopeVariable, anyElement]

end EntityGraph.Rule
