import EntityGraph.Filter.Compile
import EntityGraph.Filter.Describe
import EntityGraph.Read.Error
import EntityGraph.Read.Request
import EntityGraph.Sparql.Query

/-!
# From requests to queries and back to records

A request is compiled to one query: the pattern of the expanded read, and, if there is a
condition, the pattern that binds the variables of the condition as a conjunct at the same
entity. The rows that a store answers are decoded with the names that compiling made up.
-/
namespace EntityGraph

/-- The schema that requests refer to, the placement rules and the supply of scope keys. -/
structure Reader where
  schema : Schema
  rules : List Rule := Rule.builtin
  key : Nat → ScopeKey := id

structure CompiledQuery where
  pattern : Pattern
  condition : Option Sparql.Clause
  sparql : String
  names : Naming
  root : Place
  entityType : EntityType
  expand : ExpandTree

namespace Reader

/-- The entity that a query starts from, in a scope of its own, and the names so far. -/
def startingPosition : Position × Naming :=
  let (root, names) := ({} : Naming).newPlace
  let (scope, names) := names.rootScope root
  (⟨root, scope⟩, names)

def idFault? (request : ReadRequest) : Option FilterError :=
  match request.byId with
  | some id => if id.isLiteral then none else some (.idNotLiteral id.describe)
  | none => none

def compileFilter (reader : Reader) (owner : EntityType) (position : Position) (names : Naming)
    (filter : Filter) : Except ReadError (Sparql.Clause × Body × Naming) :=
  let context : FilterContext := ⟨reader.schema, reader.rules, reader.key⟩
  match (filter.compile context ⟨owner.name, []⟩ position).run.run { names } with
  | (.error e, _) => .error (.filter e)
  | (.ok compiled, session) =>
    match compiled.forest.placeAll reader.rules position session.names with
    | .error e => .error (.placement e)
    | .ok (body, names) => .ok (compiled.clause, body, names)

/-- The pattern and the condition of a request for entities of type `owner`. -/
def compilePattern (reader : Reader) (owner : EntityType) (request : ReadRequest) :
    Except ReadError (Pattern × Option Sparql.Clause × Naming) :=
  let (position, names) := startingPosition
  match request.expand.compile reader.schema reader.rules owner position names with
  | .error e => .error (.expand e)
  | .ok (pattern, names) =>
    match request.effectiveFilter with
    | none => .ok (pattern, none, names)
    | some filter =>
      match reader.compileFilter owner position names filter with
      | .error e => .error e
      | .ok (clause, body, names) =>
        let bound : Body := .conjunct position.place.var body .nil
        .ok ({ pattern with body := pattern.body.append bound }, some clause, names)

def compile (reader : Reader) (request : ReadRequest) : Except ReadError CompiledQuery :=
  match reader.schema.entitySet request.entitySet with
  | .error e => .error (.schema e)
  | .ok owner =>
    match idFault? request with
    | some e => .error (.filter e)
    | none =>
      match reader.compilePattern owner request with
      | .error e => .error e
      | .ok (pattern, condition, names) =>
        let query : Sparql.Query :=
          ⟨reader.schema.prefixes, pattern.group, condition.map Sparql.Clause.text⟩
        .ok {
          pattern
          condition
          sparql := query.text
          names
          root := startingPosition.1.place
          entityType := owner
          expand := request.expand }

/-- What a read answers: the records of a set, or the record of an identifier if there is one. -/
inductive Answer where
  | all (records : List Record)
  | one (record : Option Record)

def Answer.toJson : Answer → Json
  | all records => .array (records.map Record.toJson)
  | one (some record) => record.toJson
  | one none => .null

def answer (reader : Reader) (request : ReadRequest) (compiled : CompiledQuery) (rows : List Row) :
    Except ReadError Answer :=
  match decode reader.schema compiled.names compiled.entityType compiled.expand compiled.root rows with
  | .error e => .error (.decode e)
  | .ok records =>
    if request.byId.isSome then .ok (.one records.head?) else .ok (.all records)

/-- Compile a request, ask the store, decode the rows. -/
def execute (reader : Reader) (store : String → Except StoreError (List Row))
    (request : ReadRequest) : Except ReadError Answer :=
  match reader.compile request with
  | .error e => .error e
  | .ok compiled =>
    match store compiled.sparql with
    | .error e => .error (.store e)
    | .ok rows => reader.answer request compiled rows

end Reader
end EntityGraph
