import EntityGraph.Expand.Tree
import EntityGraph.Filter.Expr
import EntityGraph.Schema.Basic

/-!
# Read requests

A request reads the entities of a set, or the one with a given identifier, with what is expanded
of them and under a condition.
-/
namespace EntityGraph

structure ReadRequest where
  entitySet : String
  expand : ExpandTree := .nil
  filter : Option Filter := none
  byId : Option Filter := none
  deriving DecidableEq, Repr

def Filter.hasId (id : Filter) : Filter := .eq (.property [idName]) id

/-- The condition on the entities that are read, the one on the identifier first. -/
def ReadRequest.effectiveFilter (request : ReadRequest) : Option Filter :=
  match request.byId, request.filter with
  | some id, some filter => some (.and (.hasId id) (.parentheses filter))
  | some id, none => some (.hasId id)
  | none, filter => filter

end EntityGraph
