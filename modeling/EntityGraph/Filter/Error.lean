import EntityGraph.Filter.Expr
import EntityGraph.Placement.Rule

/-!
# What can be wrong with a filter
-/
namespace EntityGraph

inductive FilterError where
  | schema (error : SchemaError)
  | scope (error : ScopeError)
  | placement (error : PlacementError)
  /-- A number that is not finite; the text is its numeral. -/
  | notFinite (numeral : String)
  /-- An identifier that is no literal; the text describes the expression. -/
  | idNotLiteral (expression : String)
  deriving DecidableEq, Repr

def FilterError.message : FilterError → String
  | schema error => error.message
  | scope error => error.message
  | placement error => error.message
  | notFinite numeral => s!"Invalid literal `{numeral}`: numbers must be finite"
  | idNotLiteral expression => s!"Invalid literal `{expression}`: an entity id must be a literal"

end EntityGraph
