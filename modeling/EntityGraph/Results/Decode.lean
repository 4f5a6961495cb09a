import EntityGraph.Expand.Shape
import EntityGraph.Naming.Basic
import EntityGraph.Results.Collection
import EntityGraph.Results.Record
import EntityGraph.Results.Row

/-!
# From rows to records

Every row is routed through the shape of the read: at each level it belongs to the entity whose
identifier it binds, and what else it binds is recorded there. A row that does not bind the
identifier of a level says nothing about that level. Rows that disagree about a value, or about
which entity a single-valued navigation leads to, make the result inconsistent.
-/
namespace EntityGraph

inductive DecodeError where
  | inconsistent (type id property first second : String)
  | missingVariable (type property : String)
  | schema (error : SchemaError)
  deriving DecidableEq, Repr

def DecodeError.message : DecodeError → String
  | inconsistent type id property first second =>
    s!"Inconsistent result for {type} `{id}`: `{property}` is both `{first}` and `{second}`"
  | missingVariable type property => s!"No variable allocated for `{type}.{property}`"
  | schema error => error.message

namespace Shape

/-- Record a row at the entity of type `type` whose identifier it binds; `fill` records what it
says about that entity. -/
def route (names : Naming) (row : Row) (type : String) (place : Place)
    (fill : String → Entity → Except DecodeError Entity) (collection : Collection) :
    Except DecodeError Collection :=
  match names.value? place idName with
  | none => .error (.missingVariable type idName)
  | some var =>
    match row.bound? var with
    | none => .ok collection
    | some id => collection.update id (fill id)

/-- Record what a row says about the fields of one entity. -/
def fill (names : Naming) (row : Row) :
    Shape → String → Place → String → Entity → Except DecodeError Entity
  | nil, _, _, _, entity => .ok entity
  | value p rest, type, place, id, entity =>
    match names.value? place p.name with
    | none => .error (.missingVariable type p.name)
    | some var =>
      match row.bound? var with
      | none => fill names row rest type place id entity
      | some text =>
        match entity.conflict? p.name text with
        | some first => .error (.inconsistent type id p.name first text)
        | none => fill names row rest type place id (entity.setValue p.name text)
  | navigation p target below rest, type, place, id, entity =>
    match names.related? place p.name with
    | none => .error (.missingVariable type p.name)
    | some related => do
      let items ← route names row target.name related
        (fun id entity => fill names row below target.name related id entity) (entity.items p.name)
      match p.isSingle, items.ids with
      | true, first :: second :: _ => .error (.inconsistent type id p.name first second)
      | _, _ => fill names row rest type place id (entity.setItems p.name items)

/-- The record of an entity. -/
def record : Shape → Entity → Record
  | nil, _ => .nil
  | value p rest, entity => .value p.name (entity.value? p.name) (rest.record entity)
  | navigation p _ below rest, entity =>
    let children := (entity.items p.name).toList.map fun (_, child) => below.record child
    if p.isSingle then
      match children with
      | [] => .absent p.name (rest.record entity)
      | child :: _ => .single p.name child (rest.record entity)
    else .many p.name children (rest.record entity)

def collect (names : Naming) (type : String) (root : Place) (shape : Shape) (rows : List Row) :
    Except DecodeError Collection :=
  rows.foldlM (fun collection row =>
    route names row type root (fun id entity => shape.fill names row type root id entity) collection)
    .nil

def records (shape : Shape) (collection : Collection) : List Record :=
  collection.toList.map fun (_, entity) => shape.record entity

/-- Record what a row says about an entity with these properties. It is an error that the type an
expanded name leads to is not there, once a row comes to an entity with that name. -/
def fillEach (names : Naming) (row : Row)
    (children : List (String × Except SchemaError (EntityType × Shape))) :
    List Property → String → Place → String → Entity → Except DecodeError Entity
  | [], _, _, _, entity => .ok entity
  | p :: rest, type, place, id, entity =>
    if p.isElementary then do
      let entity ← fill names row (value p nil) type place id entity
      fillEach names row children rest type place id entity
    else
      match children.lookup p.name, names.related? place p.name with
      | none, _ => fillEach names row children rest type place id entity
      | some _, none => .error (.missingVariable type p.name)
      | some (.error e), some _ => .error (.schema e)
      | some (.ok (target, below)), some _ => do
        let entity ← fill names row (navigation p target below nil) type place id entity
        fillEach names row children rest type place id entity

def collectEach (schema : Schema) (names : Naming) (owner : EntityType) (expand : ExpandTree)
    (root : Place) (rows : List Row) : Except DecodeError Collection :=
  rows.foldlM (fun collection row =>
    route names row owner.name root
      (fun id entity => fillEach names row (children schema expand owner) owner.properties owner.name
        root id entity)
      collection)
    .nil

end Shape

/-- The entities that rows speak of, read as entities of type `owner` with `expand`, and the
shape they are read in, which nothing asks for if there are none. -/
def decodeCollection (schema : Schema) (names : Naming) (owner : EntityType) (expand : ExpandTree)
    (root : Place) (rows : List Row) : Except DecodeError (Shape × Collection) := do
  let collection ← Shape.collectEach schema names owner expand root rows
  match Shape.ofExpand schema owner expand, collection with
  | .ok shape, collection => return (shape, collection)
  | .error _, .nil => return (.nil, .nil)
  | .error e, .cons .. => throw (.schema e)

def decode (schema : Schema) (names : Naming) (owner : EntityType) (expand : ExpandTree)
    (root : Place) (rows : List Row) : Except DecodeError (List Record) := do
  let (shape, collection) ← decodeCollection schema names owner expand root rows
  return shape.records collection

end EntityGraph
