import EntityGraph.Filter.Error
import EntityGraph.Number.Notation
import EntityGraph.Pattern.Group
import EntityGraph.Placement.Forest
import EntityGraph.Sparql.Clause

/-!
# Compiling filters

A filter is compiled to a condition and to the branches that bind the variables of the
condition. A path is followed through single-valued navigation properties to an elementary
property; where it ends in a foreign key, it ends in the identifier of the related entity. A
path that starts with a lambda variable starts at the entity the variable stands for.

`any` opens a scope, binds its lambda variable there and becomes an `EXISTS` condition with a
pattern of its own. Of the branches its predicate asks for, those at its own lambda variable
hang below the collection's edge and all others at the entity that is filtered; outside, only
the way to the collection remains.

Compiling goes on with the names made up so far, also those of a filter that turned out to be
faulty. Scopes are told apart by keys from a supply; only their being different matters.
-/
namespace EntityGraph

open Sparql (Clause)

structure FilterContext where
  schema : Schema
  rules : List Rule
  /-- The supply of scope keys. -/
  key : Nat → ScopeKey := id

/-- The names in use, and the number of scope keys drawn. -/
structure Session where
  names : Naming
  drawn : Nat := 0

abbrev FilterM := ExceptT FilterError (StateM Session)

/-- The type of the filtered entity, and the lambda variables in scope with their types. -/
structure FilterScope where
  entityType : String
  lambdas : List (String × String) := []

def FilterScope.withLambda (scope : FilterScope) (name entityType : String) : FilterScope :=
  { scope with lambdas := (name, entityType) :: scope.lambdas }

structure CompiledFilter where
  clause : Clause
  forest : Forest := .nil
  mayBeUnbound : Bool := false

def CompiledFilter.isVariable (compiled : CompiledFilter) : Bool := compiled.clause.isVar

namespace Filter

/-- Run a step that makes up names. -/
def naming {α : Type} (step : Naming → α × Naming) : FilterM α := do
  let session ← get
  let (a, names) := step session.names
  set { session with names }
  return a

def liftSchema {α : Type} : Except SchemaError α → FilterM α
  | .ok a => pure a
  | .error e => throw (.schema e)

/-- Integers below `10 ^ 15` are written without a point, other numbers with all their digits. -/
def numberText (value : Binary64) : Except FilterError String :=
  match value with
  | .finite negative significand shift =>
    match Binary64.integral? significand shift with
    | some n =>
      if n < Nat.pow 10 15 then
        .ok (Binary64.signText (negative && n ≠ 0) ++ Binary64.decimalText n)
      else .ok value.plainText
    | none => .ok value.plainText
  | _ => .error (.notFinite value.plainText)

/-- How far a path has been followed: the branches taken, the type and the entity reached, and
whether an optional property was passed. -/
structure Cursor where
  branches : List Branch
  owner : EntityType
  place : Place
  isOptional : Bool := false

/-- The start of a path, and the part of it that is still to be followed. -/
def start (context : FilterContext) (scope : FilterScope) (position : Position)
    (path : List String) : FilterM (Cursor × List String) := do
  let owner ← liftSchema (context.schema.entityType scope.entityType)
  let here : Cursor := { branches := [], owner, place := position.place }
  match path with
  | [] => return (here, [])
  | first :: rest =>
    if (scope.lambdas.lookup first).isNone then return (here, path)
    match (← get).names.resolve position.scope first with
    | .error e => throw (.scope e)
    | .ok found =>
      let owner ← liftSchema (context.schema.entityType found.entityType)
      return ({ branches := [.lambda first found.entityType], owner, place := found.place }, rest)

def navigate (context : FilterContext) (path : List String) (cursor : Cursor) (name : String) :
    FilterM Cursor := do
  let p ← liftSchema (cursor.owner.property name)
  if p.isElementary then throw (.schema (.invalidPath path (.notNavigation name)))
  if !p.isSingle then throw (.schema (.invalidPath path (.throughCollection name)))
  let branch ← liftSchema (Branch.ofProperty context.schema cursor.owner p)
  let place ← naming (·.relatedPlace cursor.place name)
  let owner ← liftSchema (context.schema.targetType p)
  return {
    branches := cursor.branches ++ [branch]
    owner
    place
    isOptional := cursor.isOptional || !p.isMandatory }

def navigateAll (context : FilterContext) (path : List String) (cursor : Cursor) :
    List String → FilterM Cursor
  | [] => return cursor
  | name :: rest => do
    let cursor ← navigate context path cursor name
    navigateAll context path cursor rest

/-- Follow a path but for its last name, which is given as well. -/
def follow (context : FilterContext) (scope : FilterScope) (position : Position)
    (path : List String) (missing : PathFault) : FilterM (Cursor × String) := do
  let (cursor, rest) ← start context scope position path
  match rest.getLast? with
  | none => throw (.schema (.invalidPath path missing))
  | some last => return (← navigateAll context path cursor rest.dropLast, last)

def readValue (context : FilterContext) (path : List String) (cursor : Cursor) (p : Property) :
    FilterM CompiledFilter := do
  if !p.isElementary then throw (.schema (.invalidPath path (.notValue p.name)))
  let branch ← liftSchema (Branch.ofProperty context.schema cursor.owner p)
  let var ← naming (·.value cursor.place p.name)
  return {
    clause := .var var
    forest := .ofPath (cursor.branches ++ [branch]) .nil
    mayBeUnbound := cursor.isOptional || !p.isMandatory }

/-- A value at the end of a path; for a foreign key, that of the related entity. -/
def compileProperty (context : FilterContext) (scope : FilterScope) (position : Position)
    (path : List String) : FilterM CompiledFilter := do
  let (cursor, last) ← follow context scope position path .noProperty
  let p ← liftSchema (cursor.owner.property last)
  match ← liftSchema (context.schema.foreignKey? cursor.owner p) with
  | none => readValue context path cursor p
  | some (related, relatedId) =>
    let next ← navigate context path cursor related.name
    readValue context path next relatedId

def compileCollection (context : FilterContext) (scope : FilterScope) (position : Position)
    (path : List String) : FilterM (Cursor × Property × Hop × EntityType) := do
  let (cursor, last) ← follow context scope position path .noCollection
  let p ← liftSchema (cursor.owner.property last)
  if p.isSingle then throw (.schema (.invalidPath path (.notCollection p.name)))
  let hop ← liftSchema (context.schema.hop p)
  let element ← liftSchema (context.schema.targetType p)
  return (cursor, p, hop, element)

/-- Draw a key and open the scope where the lambda variable of an `any` is bound. -/
def openScope (context : FilterContext) (outer : Scope) (lambda elementType : String) :
    FilterM (ScopeKey × Scope) := do
  let session ← get
  let key := context.key session.drawn
  let inner := outer.enter key
  set { session with drawn := session.drawn + 1 }
  match session.names.define inner lambda elementType with
  | .error e => throw (.scope e)
  | .ok (_, names) =>
    modify fun session => { session with names }
    return (key, inner)

def joinForest (way : List Branch) (element : AnyBranch) (elementType : String)
    (predicate : Forest) : Forest :=
  let own : Branch := .lambda element.lambda elementType
  (Forest.ofPath way (.cons (.any element) (predicate.filterTop (· = own)) .nil)).merge
    (predicate.filterTop (· ≠ own))

def placeJoin (context : FilterContext) (position : Position) (forest : Forest) :
    FilterM Pattern := do
  let placed ← naming fun names =>
    let placed := forest.place context.rules position names
    (placed, placed.names)
  match placed.failure with
  | some e => throw (.placement e)
  | none => return ⟨position.place.var, placed.body⟩

def compile (context : FilterContext) : Filter → FilterScope → Position → FilterM CompiledFilter
  | string value, _, _ => return { clause := .string value }
  | number value, _, _ =>
    match numberText value with
    | .ok text => return { clause := .number text }
    | .error e => throw e
  | boolean value, _, _ => return { clause := .boolean value }
  | null, _, _ => do
    let var ← naming (·.fresh)
    return { clause := .var var, mayBeUnbound := true }
  | and left right, scope, position => do
    let l ← compile context left scope position
    let r ← compile context right scope position
    return { clause := .and l.clause r.clause, forest := l.forest.merge r.forest }
  | or left right, scope, position => do
    let l ← compile context left scope position
    let r ← compile context right scope position
    return { clause := .or l.clause r.clause, forest := l.forest.merge r.forest }
  | eq left right, scope, position => do
    let l ← compile context left scope position
    let r ← compile context right scope position
    return {
      clause := .nullSafeEqual l.clause r.clause (l.mayBeUnbound || r.mayBeUnbound)
      forest := l.forest.merge r.forest }
  | parentheses inner, scope, position => compile context inner scope position
  | property path, scope, position => compileProperty context scope position path
  | any path lambda predicate, scope, position => do
    let (cursor, collection, hop, element) ← compileCollection context scope position path
    let (key, inner) ← openScope context position.scope lambda element.name
    let body ← compile context predicate (scope.withLambda lambda element.name)
      { position with scope := inner }
    let join := joinForest cursor.branches
      { name := collection.name, hop, lambda, key } element.name body.forest
    let pattern ← placeJoin context position join
    return {
      clause := .existing pattern.group body.clause
      forest := .ofPath cursor.branches .nil }

end Filter
end EntityGraph
