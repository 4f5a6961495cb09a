import EntityGraph.Filter.Expr
import EntityGraph.Number.Notation
import EntityGraph.Text.Escaped

/-!
# Descriptions of filters

How an error message shows a filter expression: every node by its kind and its fields.
-/
namespace EntityGraph.Filter

def describePath (path : List String) : String :=
  "[" ++ ", ".intercalate (path.map Text.described) ++ "]"

def describeNode (kind : String) (fields : List (String × String)) : String :=
  kind ++ " \x7b " ++ ", ".intercalate (fields.map fun (name, text) => name ++ ": " ++ text) ++ " \x7d"

def describe : Filter → String
  | string value => describeNode "StringLiteral" [("value", Text.described value)]
  | number value => describeNode "NumericLiteral" [("value", value.annotatedText)]
  | boolean value => describeNode "BooleanLiteral" [("value", if value then "true" else "false")]
  | null => "NullLiteral"
  | and left right => describeNode "And" [("lhs", left.describe), ("rhs", right.describe)]
  | or left right => describeNode "Or" [("lhs", left.describe), ("rhs", right.describe)]
  | eq left right => describeNode "Eq" [("lhs", left.describe), ("rhs", right.describe)]
  | parentheses inner => describeNode "Parentheses" [("inner", inner.describe)]
  | property path => describeNode "PropertyValue" [("path", describePath path)]
  | any path lambda predicate =>
    describeNode "Any" [("path", describePath path), ("variable", Text.described lambda),
      ("predicate", predicate.describe)]

end EntityGraph.Filter
