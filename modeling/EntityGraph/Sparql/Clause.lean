import EntityGraph.Sparql.Group
import EntityGraph.Text.Quoted

/-!
# Conditions of the query language

The expressions that a filter is compiled to. Every binary operation is written in
parentheses, so that the text groups exactly as the expression does.
-/
namespace EntityGraph.Sparql

inductive Clause where
  | string (value : String)
  | number (text : String)
  | boolean (value : Bool)
  | var (name : String)
  | and (left right : Clause)
  | or (left right : Clause)
  | equal (left right : Clause)
  | not (inner : Clause)
  | bound (name : String)
  | existing (group : Group) (condition : Clause)
  deriving Repr, Inhabited

namespace Clause

def isVar : Clause → Bool
  | var _ => true
  | _ => false

@[grind =] def text : Clause → String
  | string value => String.ofList (Text.Quoted.quote value.toList)
  | number text => text
  | boolean value => if value then "true" else "false"
  | var name => name
  | and left right => "(" ++ left.text ++ " && " ++ right.text ++ ")"
  | or left right => "(" ++ left.text ++ " || " ++ right.text ++ ")"
  | equal left right => "(" ++ left.text ++ " = " ++ right.text ++ ")"
  | not inner => "!" ++ inner.text
  | bound name => "BOUND(" ++ name ++ ")"
  | existing group condition =>
    "EXISTS \x7b " ++ group.text ++ " FILTER(" ++ condition.text ++ ") \x7d"

/-- Equality in which two absent values are equal. It differs from the plain one only when one
of the sides may be absent, and only variables can be. -/
def nullSafeEqual (left right : Clause) (mayBeUnbound : Bool) : Clause :=
  match mayBeUnbound, left, right with
  | true, var l, var r => or (equal left right) (not (or (bound l) (bound r)))
  | _, _, _ => equal left right

end Clause
end EntityGraph.Sparql
