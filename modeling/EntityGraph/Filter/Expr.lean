import EntityGraph.Number.Binary64

/-!
# Filter expressions

Conditions on entities: literals, values reached over a path of properties, comparisons and
their combinations, and `any`, which asks for an element of a collection under a lambda
variable.
-/
namespace EntityGraph

inductive Filter where
  | string (value : String)
  | number (value : Binary64)
  | boolean (value : Bool)
  | null
  | and (left right : Filter)
  | or (left right : Filter)
  | eq (left right : Filter)
  | parentheses (inner : Filter)
  | property (path : List String)
  | any (path : List String) (lambda : String) (predicate : Filter)
  deriving DecidableEq, Repr, Inhabited

def Filter.isLiteral : Filter → Bool
  | string _ => true
  | number _ => true
  | boolean _ => true
  | null => true
  | _ => false

end EntityGraph
