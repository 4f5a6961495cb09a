/-!
# Walking over edges

Edges of the graph can be walked in both directions.
-/
namespace EntityGraph

/-- An edge as it is walked: its predicate, and whether it is walked from its object to its
subject. -/
structure Hop where
  predicate : String
  isInverse : Bool
  deriving DecidableEq, Repr, Inhabited

end EntityGraph
