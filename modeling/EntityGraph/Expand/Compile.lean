import EntityGraph.Expand.Shape
import EntityGraph.Placement.Forest

/-!
# Patterns for expanded reads

An expand tree fits an entity type when every name of it is a navigation property of the type
it is expanded at. The names of a level are examined before what is expanded below them, and
the levels below in the order of the schema. The pattern of a read has the entity's class, if
its type declares one, and the branches of its shape.
-/
namespace EntityGraph

inductive ExpandError where
  | schema (error : SchemaError)
  | placement (error : PlacementError)
  deriving DecidableEq, Repr

def ExpandError.message : ExpandError → String
  | schema error => error.message
  | placement error => error.message

namespace ExpandTree

def nameFault? (owner : EntityType) (name : String) : Option SchemaError :=
  match owner.property? name with
  | none => some (.unknownExpansion owner.name name)
  | some p => if p.isElementary then some (.invalidPath [name] .notExpandable) else none

def levelFault? (owner : EntityType) (names : List String)
    (below : List (String × Option SchemaError)) : Option SchemaError :=
  (names.findSome? (nameFault? owner)).or
    (owner.properties.findSome? fun p => (below.lookup p.name).getD none)

def faultsBelow (schema : Schema) : ExpandTree → EntityType → List (String × Option SchemaError)
  | nil, _ => []
  | cons name below rest, owner =>
    let fault :=
      match (owner.property? name).map schema.targetType with
      | none => none
      | some (.error e) => some e
      | some (.ok target) => levelFault? target below.names (faultsBelow schema below target)
    (name, fault) :: faultsBelow schema rest owner

/-- Why the tree does not fit the type. -/
def fault? (schema : Schema) (owner : EntityType) (expand : ExpandTree) : Option SchemaError :=
  levelFault? owner expand.names (faultsBelow schema expand owner)

def select (schema : Schema) (owner : EntityType) (expand : ExpandTree) :
    Except SchemaError Forest :=
  match expand.fault? schema owner with
  | some e => .error e
  | none => do (← Shape.ofExpand schema owner expand).forest schema owner

def classBody (owner : EntityType) : Body :=
  match owner.rdfClass with
  | some name => .leaf "rdf:type" name .nil
  | none => .nil

/-- The pattern that reads an entity of type `owner` at `position`. -/
def compile (schema : Schema) (rules : List Rule) (owner : EntityType) (expand : ExpandTree)
    (position : Position) (names : Naming) : Except ExpandError (Pattern × Naming) :=
  match expand.select schema owner with
  | .error e => .error (.schema e)
  | .ok forest =>
    match forest.placeAll rules position names with
    | .error e => .error (.placement e)
    | .ok (body, names) => .ok (⟨position.place.var, (classBody owner).merge body⟩, names)

end ExpandTree
end EntityGraph
