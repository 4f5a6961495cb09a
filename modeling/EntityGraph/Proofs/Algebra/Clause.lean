import EntityGraph.Proofs.Algebra.Group
import EntityGraph.Read.Compile

/-!
# Values of conditions

A condition is evaluated for an assignment of terms to variables. Its value is a term or an error;
an unbound variable is an error. Conjunction and disjunction have three values: an error does
not matter where the other side decides. `EXISTS` holds when its group, with the bound variables
replaced by their terms, has a solution that satisfies the condition inside.

How terms are compared, and which terms other than truth values count as true, is left open.
-/
namespace EntityGraph.Sparql

def xsd (name : String) : String := "http://www.w3.org/2001/XMLSchema#" ++ name

namespace Term

def ofString (text : String) : Term := .literal text (xsd "string") none

def ofBool (b : Bool) : Term := .literal (if b then "true" else "false") (xsd "boolean") none

/-- A numeral without exponent is an integer, or a decimal number if it has a point. -/
def ofNumeral (text : String) : Term :=
  .literal text (xsd (if text.toList.contains '.' then "decimal" else "integer")) none

end Term

/-- The comparison of terms and their effective truth values; `none` is an error. -/
structure Operators where
  equal : Term → Term → Option Bool
  truth : Term → Option Bool
  truth_ofBool : ∀ b, truth (.ofBool b) = some b

def conjunction : Option Bool → Option Bool → Option Bool
  | some false, _ => some false
  | _, some false => some false
  | some true, some true => some true
  | _, _ => none

def disjunction : Option Bool → Option Bool → Option Bool
  | some true, _ => some true
  | _, some true => some true
  | some false, some false => some false
  | _, _ => none

namespace Clause

def value (ops : Operators) (data : Dataset) : Clause → Assignment → Option Term
  | string text, _ => some (.ofString text)
  | number text, _ => some (.ofNumeral text)
  | boolean b, _ => some (.ofBool b)
  | var name, env => env name
  | and left right, env =>
    (conjunction ((left.value ops data env).bind ops.truth)
      ((right.value ops data env).bind ops.truth)).map .ofBool
  | or left right, env =>
    (disjunction ((left.value ops data env).bind ops.truth)
      ((right.value ops data env).bind ops.truth)).map .ofBool
  | equal left right, env => do
    let l ← left.value ops data env
    let r ← right.value ops data env
    (ops.equal l r).map .ofBool
  | not inner, env => (((inner.value ops data env).bind ops.truth).map (! ·)).map .ofBool
  | bound name, env => some (.ofBool (env name).isSome)
  | existing group condition, env =>
    some (.ofBool ((group.solutions data env).any fun μ =>
      (condition.value ops data (env.extend μ)).bind ops.truth == some true))

/-- Whether a condition is satisfied: an error counts as not satisfied. -/
def holds (ops : Operators) (data : Dataset) (clause : Clause) (env : Assignment) : Bool :=
  (clause.value ops data env).bind ops.truth == some true

end Clause
end EntityGraph.Sparql

namespace EntityGraph.CompiledQuery

open Sparql

/-- The rows with which a store answers a compiled query. -/
def rows (ops : Operators) (data : Dataset) (query : CompiledQuery) : List Row :=
  ((query.pattern.group.solutions data .empty).filter fun μ =>
    query.condition.all fun clause => clause.holds ops data μ.get?).map Row.ofSolution

end EntityGraph.CompiledQuery
