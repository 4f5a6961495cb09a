import EntityGraph.Document.Yaml
import EntityGraph.Schema.Build
import EntityGraph.Text.Lowercase

/-!
# Schema documents

A schema is defined by a document. A property that names no predicate has the default prefix
and its own name, its first letter in lower case, as predicate; a property that is read
through its inverse must not name one.
-/
namespace EntityGraph

structure PropertyDefinition where
  name : String
  type : String
  cardinality : Cardinality := .one
  isOptional : Bool := false
  predicate : Option String := none
  inverseOf : Option String := none
  foreignKeyOf : Option String := none
  generation : Generation := .manual

structure TypeDefinition where
  name : String
  rdfClass : Option String := none
  properties : List PropertyDefinition

structure SchemaDefinition where
  prefixes : List (String × String) := []
  defaultPrefix : String
  types : List TypeDefinition
  sets : List (String × String) := []

def Cardinality.ofDocument? (d : Document) : Option Cardinality :=
  match d.word? with
  | some "one" => some .one
  | some "many" => some .many
  | _ => none

def Generation.ofDocument? (d : Document) : Option Generation :=
  match d.word? with
  | some "none" => some .manual
  | some "auto-increment" => some .autoIncrement
  | some "uuid" => some .uuid
  | _ => none

def PropertyDefinition.ofDocument? (d : Document) : Option PropertyDefinition := do
  let fields ← d.fields?
    ["name", "type", "cardinality", "optional", "predicate", "inverse_of", "foreign_key_of", "generation"]
  return {
    name := ← fields.required 0 "name" Document.text?
    type := ← fields.required 1 "type" Document.text?
    cardinality := ← fields.defaulted 2 "cardinality" .one Cardinality.ofDocument?
    isOptional := ← fields.defaulted 3 "optional" false Document.flag?
    predicate := ← fields.defaulted 4 "predicate" none Document.optionalText?
    inverseOf := ← fields.defaulted 5 "inverse_of" none Document.optionalText?
    foreignKeyOf := ← fields.defaulted 6 "foreign_key_of" none Document.optionalText?
    generation := ← fields.defaulted 7 "generation" .manual Generation.ofDocument? }

def TypeDefinition.ofDocument? (d : Document) : Option TypeDefinition := do
  let fields ← d.fields? ["name", "class", "properties"]
  let properties ← fields.required 2 "properties" Document.list?
  return {
    name := ← fields.required 0 "name" Document.text?
    rdfClass := ← fields.defaulted 1 "class" none Document.optionalText?
    properties := ← properties.mapM PropertyDefinition.ofDocument? }

/-- Associations sorted by name; a later association replaces an earlier one of its name. -/
def insertSorted {α : Type} (name : String) (value : α) : List (String × α) → List (String × α)
  | [] => [(name, value)]
  | (other, kept) :: rest =>
    if name < other then (name, value) :: (other, kept) :: rest
    else if name = other then (name, value) :: rest
    else (other, kept) :: insertSorted name value rest

def textsOfDocument? (d : Document) : Option (List (String × String)) := do
  let members ← d.record?
  let pairs ← members.mapM fun (name, value) => value.text?.map (name, ·)
  return pairs.foldl (fun sorted (name, text) => insertSorted name text sorted) []

namespace SchemaDefinition

def ofDocument? (d : Document) : Option SchemaDefinition := do
  let fields ← d.fields? ["prefixes", "default_prefix", "entity_types", "entity_sets"]
  let types ← fields.required 2 "entity_types" Document.list?
  return {
    prefixes := ← fields.defaulted 0 "prefixes" [] textsOfDocument?
    defaultPrefix := ← fields.required 1 "default_prefix" Document.text?
    types := ← types.mapM TypeDefinition.ofDocument?
    sets := ← fields.defaulted 3 "entity_sets" [] textsOfDocument? }

def ofYaml (text : String) : Except SchemaError SchemaDefinition :=
  match (Yaml.parse? text).bind ofDocument? with
  | some definition => .ok definition
  | none => .error .malformed

def propertyFault? (type : String) (p : PropertyDefinition) : Option SchemaError :=
  if p.inverseOf.isSome && p.predicate.isSome then
    some (.invalid (.inType type (.inverseWithPredicate p.name)))
  else none

def typeFault? (t : TypeDefinition) : Option SchemaError :=
  if t.properties.isEmpty then some (.invalid (.inType t.name .noProperties))
  else t.properties.findSome? (propertyFault? t.name)

/-- What is wrong with a definition before its types are put together. -/
def fault? (definition : SchemaDefinition) : Option SchemaError :=
  if definition.types.isEmpty then some (.invalid .noTypes)
  else if (definition.prefixes.lookup definition.defaultPrefix).isNone then
    some (.invalid (.undeclaredDefault definition.defaultPrefix))
  else definition.types.findSome? typeFault?

def defaultPredicate (definition : SchemaDefinition) (name : String) : String :=
  definition.defaultPrefix ++ ":" ++ String.ofList (Text.lowercaseFirst name.toList)

def property (definition : SchemaDefinition) (p : PropertyDefinition) : Property where
  name := p.name
  target := p.type
  predicate := p.predicate.getD (definition.defaultPredicate p.name)
  cardinality := p.cardinality
  isOptional := p.isOptional
  inverseOf := p.inverseOf
  foreignKeyOf := p.foreignKeyOf
  generation := p.generation

def toSchema (definition : SchemaDefinition) : Except SchemaError Schema := do
  if let some e := definition.fault? then .error e
  let types ← definition.types.mapM fun t =>
    EntityType.build t.name t.rdfClass (t.properties.map definition.property)
  Schema.build definition.prefixes types definition.sets

end SchemaDefinition
end EntityGraph
