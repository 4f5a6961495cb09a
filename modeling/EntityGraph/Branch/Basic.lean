import EntityGraph.Naming.Basic
import EntityGraph.Schema.Basic

/-!
# Branches

A branch says what is asked for at an entity, with everything that deciding its place in a
graph pattern needs: a property, what a lambda variable stands for, or the elements of a
collection under a lambda variable.
-/
namespace EntityGraph

/-- The way to the value of a foreign key: over a navigation property to the identifier of the
related entity. -/
structure ForeignKey where
  navigation : String
  hop : Hop
  idPredicate : String
  deriving DecidableEq, Repr

structure PropertyBranch where
  name : String
  hop : Hop
  isComplex : Bool
  isMandatory : Bool
  isSingle : Bool
  foreignKey : Option ForeignKey
  deriving DecidableEq, Repr

def PropertyBranch.isId (p : PropertyBranch) : Bool := p.name == idName

structure AnyBranch where
  name : String
  hop : Hop
  lambda : String
  key : ScopeKey
  deriving DecidableEq, Repr

inductive Branch where
  | property (p : PropertyBranch)
  | lambda (name entityType : String)
  | any (a : AnyBranch)
  deriving DecidableEq, Repr

def truthText (b : Bool) : String :=
  if b then "true" else "false"

namespace Branch

/-- The branch for a property of `owner`. An elementary property is reached over its own
predicate. -/
def ofProperty (schema : Schema) (owner : EntityType) (p : Property) :
    Except SchemaError Branch := do
  let hop ← if p.isElementary then .ok ⟨p.predicate, false⟩ else schema.hop p
  let foreignKey ←
    match ← schema.foreignKey? owner p with
    | none => pure none
    | some (related, relatedId) =>
      let relatedHop ← schema.hop related
      pure (some { navigation := related.name, hop := relatedHop, idPredicate := relatedId.predicate })
  return .property {
    name := p.name
    hop
    isComplex := !p.isElementary
    isMandatory := p.isMandatory
    isSingle := p.isSingle
    foreignKey }

def describe : Branch → String
  | property p =>
    "Property(" ++ p.name ++ ", complex=" ++ truthText p.isComplex ++ ", inverse="
      ++ truthText p.hop.isInverse ++ ", mandatory=" ++ truthText p.isMandatory
      ++ ", single_valued=" ++ truthText p.isSingle ++ ", mirrored="
      ++ truthText p.foreignKey.isSome ++ ")"
  | lambda name entityType => s!"InScopeVariable({name}: {entityType})"
  | any a => "Any(" ++ a.name ++ ", " ++ a.lambda ++ ")"

end Branch
end EntityGraph
