import EntityGraph.Schema.Basic
import EntityGraph.Schema.Name

/-!
# Accepting a schema

A schema is accepted when no check finds a fault: namespaces can be written, entity sets
expose declared types, every type has a usable identifier, every name that reaches a query is
a prefixed name with a declared prefix, and inverses and foreign keys fit the properties they
refer to. The first fault found is reported.
-/
namespace EntityGraph

def firstRepeated? (seen : List String) : List String → Option String
  | [] => none
  | name :: rest => if seen.contains name then some name else firstRepeated? (name :: seen) rest

def EntityType.build (name : String) (rdfClass : Option String) (properties : List Property) :
    Except SchemaError EntityType :=
  match firstRepeated? [] (properties.map (·.name)) with
  | some repeated => .error (.invalid (.inType name (.repeatedProperty repeated)))
  | none => .ok { name, rdfClass, properties }

namespace Schema

def rdfPrefix : String := "rdf"

def rdfNamespace : String := "http://www.w3.org/1999/02/22-rdf-syntax-ns#"

/-- The prefix for types is declared last, unless it is declared already. -/
def withRdf (prefixes : List (String × String)) : List (String × String) :=
  if prefixes.any fun (declared, _) => declared == rdfPrefix then prefixes
  else prefixes ++ [(rdfPrefix, rdfNamespace)]

def declarationFault? (seen : List String) : List EntityType → Option SchemaError
  | [] => none
  | t :: rest =>
    if t.isElementary then some (.invalid (.inType t.name .primitiveName))
    else if seen.contains t.name then some (.invalid (.inType t.name .declaredTwice))
    else declarationFault? (t.name :: seen) rest

def namespaceFault? (declared iri : String) : Option SchemaError :=
  if Name.isNamespace iri then none else some (.invalid (.unusableNamespace declared))

def setFault? (schema : Schema) (set type : String) : Option SchemaError :=
  match schema.entityType type with
  | .error e => some e
  | .ok t => if t.isElementary then some (.invalid (.primitiveSet set)) else none

def nameFault? (schema : Schema) (type name : String) : Option SchemaError :=
  match Name.prefixOf? name with
  | none => some (.invalid (.inType type (.notPrefixedName name)))
  | some used =>
    if schema.prefixes.any fun (declared, _) => declared == used then none
    else some (.invalid (.inType type (.undeclaredPrefix used name)))

def inverseFault? (schema : Schema) (t : EntityType) (p : Property) : Option SchemaError :=
  if p.isDirect then none
  else if p.isElementary then some (.invalid (.inType t.name (.inverseOfElementary p.name)))
  else
    match schema.inverseProperty p with
    | .error e => some e
    | .ok inverse =>
      if inverse.target == t.name && inverse.isDirect then none
      else some (.invalid (.inType t.name (.inverseNotBack p.name)))

def foreignKeyFault? (schema : Schema) (t : EntityType) (p : Property) : Option SchemaError :=
  match p.foreignKeyOf with
  | none => none
  | some name =>
    if !p.isElementary then some (.invalid (.inType t.name (.foreignKeyNotElementary p.name)))
    else
      match t.property name with
      | .error e => some e
      | .ok related =>
        if related.isElementary || !related.isSingle then
          some (.invalid (.inType t.name (.foreignKeyTarget p.name)))
        else
          match schema.targetType related with
          | .error e => some e
          | .ok target =>
            if (target.property? idName).isSome then none
            else some (.invalid (.inType t.name (.relatedWithoutId related.name)))

def propertyFault? (schema : Schema) (t : EntityType) (p : Property) : Option SchemaError :=
  match schema.targetType p with
  | .error e => some e
  | .ok _ =>
    ((schema.nameFault? t.name p.predicate).or (schema.inverseFault? t p)).or
      (schema.foreignKeyFault? t p)

def typeFault? (schema : Schema) (t : EntityType) : Option SchemaError :=
  match t.property? idName with
  | none => some (.invalid (.inType t.name .missingId))
  | some id =>
    if !id.isElementary || !id.isMandatory then some (.invalid (.inType t.name .unusableId))
    else (t.rdfClass.bind (schema.nameFault? t.name)).or
      (t.properties.findSome? (schema.propertyFault? t))

def fault? (schema : Schema) : Option SchemaError :=
  ((schema.prefixes.findSome? fun (declared, iri) => namespaceFault? declared iri).or
    (schema.sets.findSome? fun (set, type) => schema.setFault? set type)).or
      (schema.types.findSome? schema.typeFault?)

def build (prefixes : List (String × String)) (types : List EntityType)
    (sets : List (String × String)) : Except SchemaError Schema :=
  let schema : Schema := { prefixes := withRdf prefixes, types, sets }
  match (declarationFault? [] types).or schema.fault? with
  | some e => .error e
  | none => .ok schema

end Schema
end EntityGraph
