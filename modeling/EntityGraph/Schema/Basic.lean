import EntityGraph.Pattern.Hop
import EntityGraph.Schema.Error

/-!
# Entity schemas

A schema describes entities that are stored as a graph. The value of an elementary
property and the entities of a navigation property are reached over edges with the
property's predicate; a property that is the inverse of another one is reached by walking
that other property's edges backwards. A foreign key is an elementary property that copies
the identifier of a related entity.
-/
namespace EntityGraph

inductive Cardinality where
  | one
  | many
  deriving DecidableEq, Repr, Inhabited

/-- How values of an identifier come about when entities are created. -/
inductive Generation where
  | manual
  | autoIncrement
  | uuid
  deriving DecidableEq, Repr, Inhabited

def idName : String := "Id"

def primitiveTypes : List String :=
  ["Edm.String", "Edm.Int32", "Edm.Int64", "Edm.Boolean", "Edm.Decimal", "Edm.Double",
   "Edm.DateTimeOffset", "Edm.Guid"]

def isPrimitive (type : String) : Bool :=
  primitiveTypes.contains type

structure Property where
  name : String
  target : String
  predicate : String
  cardinality : Cardinality := .one
  isOptional : Bool := false
  inverseOf : Option String := none
  foreignKeyOf : Option String := none
  generation : Generation := .manual
  deriving DecidableEq, Repr, Inhabited

namespace Property

def isElementary (p : Property) : Bool := isPrimitive p.target

def isId (p : Property) : Bool := p.name == idName

/-- Elementary properties have one value whatever their declared cardinality. -/
def isSingle (p : Property) : Bool := p.isElementary || p.cardinality == .one

def isDirect (p : Property) : Bool := p.inverseOf.isNone

def isMandatory (p : Property) : Bool := !p.isOptional

end Property

structure EntityType where
  name : String
  rdfClass : Option String := none
  properties : List Property := []
  deriving DecidableEq, Repr, Inhabited

namespace EntityType

def isElementary (t : EntityType) : Bool := isPrimitive t.name

def property? (t : EntityType) (name : String) : Option Property :=
  t.properties.find? fun p => p.name == name

def property (t : EntityType) (name : String) : Except SchemaError Property :=
  match t.property? name with
  | some p => .ok p
  | none => .error (.unknownProperty t.name name)

end EntityType

/-- The declared prefixes with their namespaces, the declared types, and the entity sets with
the names of their types. -/
structure Schema where
  prefixes : List (String × String)
  types : List EntityType
  sets : List (String × String)
  deriving DecidableEq, Repr

namespace Schema

/-- Primitive types are entity types without properties. -/
def entityType (schema : Schema) (name : String) : Except SchemaError EntityType :=
  if isPrimitive name then .ok { name }
  else
    match schema.types.find? fun t => t.name == name with
    | some t => .ok t
    | none => .error (.unknownType name)

def entitySet (schema : Schema) (name : String) : Except SchemaError EntityType :=
  match schema.sets.lookup name with
  | some type => schema.entityType type
  | none => .error (.unknownSet name)

def targetType (schema : Schema) (p : Property) : Except SchemaError EntityType :=
  schema.entityType p.target

def inverseProperty (schema : Schema) (p : Property) : Except SchemaError Property :=
  match p.inverseOf with
  | none => .error (.invalid (.directProperty p.name))
  | some name => do (← schema.targetType p).property name

/-- The edge that leads to the values of `p`. -/
def hop (schema : Schema) (p : Property) : Except SchemaError Hop :=
  if p.isDirect then .ok ⟨p.predicate, false⟩
  else do return ⟨(← schema.inverseProperty p).predicate, true⟩

/-- Of a foreign key, the navigation property that leads to the related entity and the
identifier of that entity. -/
def foreignKey? (schema : Schema) (owner : EntityType) (p : Property) :
    Except SchemaError (Option (Property × Property)) :=
  match p.foreignKeyOf with
  | none => .ok none
  | some name => do
    let related ← owner.property name
    let relatedId ← (← schema.targetType related).property idName
    return some (related, relatedId)

end Schema
end EntityGraph
