import EntityGraph.Proofs.Algebra.Group
import EntityGraph.Sparql.Clause

/-!
# Where the variables of a condition stand

Every `EXISTS` of a condition stands in the midst of other text: the rest of the condition, the groups of
the `EXISTS` around it, and whatever stands outside of the condition. The `EXISTS` are listed in the order
in which they are written, each with the variables that stand outside of its braces.
-/
namespace EntityGraph.Sparql

def Group.vars (group : Group) : List String :=
  group.words.filter isVariable

/-- An `EXISTS`, and the variables outside of its braces. -/
structure Existential where
  group : Group
  outside : List String

namespace Clause

/-- The variables of a condition, as often as they are written. -/
def vars : Clause → List String
  | string _ => []
  | number _ => []
  | boolean _ => []
  | var name => [name]
  | and left right => left.vars ++ right.vars
  | or left right => left.vars ++ right.vars
  | equal left right => left.vars ++ right.vars
  | not inner => inner.vars
  | bound name => [name]
  | existing group condition => group.vars ++ condition.vars

/-- The `EXISTS` of a condition that stands beside the variables `outside`. -/
def existentials : Clause → List String → List Existential
  | string _, _ => []
  | number _, _ => []
  | boolean _, _ => []
  | var _, _ => []
  | and left right, outside =>
    left.existentials (outside ++ right.vars) ++ right.existentials (outside ++ left.vars)
  | or left right, outside =>
    left.existentials (outside ++ right.vars) ++ right.existentials (outside ++ left.vars)
  | equal left right, outside =>
    left.existentials (outside ++ right.vars) ++ right.existentials (outside ++ left.vars)
  | not inner, outside => inner.existentials outside
  | bound _, _ => []
  | existing group condition, outside =>
    ⟨group, outside⟩ :: condition.existentials (outside ++ group.vars)

variable {left right : Clause} {mayBeUnbound : Bool} {outside : List String}

theorem existentials_nullSafeEqual : (nullSafeEqual left right mayBeUnbound).existentials outside =
    left.existentials (outside ++ right.vars) ++ right.existentials (outside ++ left.vars) := by
  unfold nullSafeEqual
  split
  · rfl
  · rfl

theorem mem_vars_nullSafeEqual {v : String} :
    v ∈ (nullSafeEqual left right mayBeUnbound).vars ↔ v ∈ left.vars ++ right.vars := by
  unfold nullSafeEqual
  split
  · simp only [vars, List.cons_append, List.nil_append, List.mem_cons, List.not_mem_nil, or_false]
    tauto
  · rfl

end Clause
end EntityGraph.Sparql
