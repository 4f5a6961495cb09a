import EntityGraph.Proofs.Algebra.Clause
import EntityGraph.Proofs.Read.Conforms

/-!
# What conditions mean

A condition on an entity is evaluated in the data. Its paths lead over single-valued navigation
properties, from the entity or from what a lambda variable stands for; where an edge is missing, all
that follows is absent. A foreign key is the identifier of the related entity. Two absent values are
equal if one of them may be absent by the schema.

A collection without elements stands for one absent element. This is what the left join over an
optional edge makes of it, and it is the only way for a lambda variable to stand for nothing.
-/
namespace EntityGraph

open Sparql

namespace Sparql.Dataset

def neighbours (data : Dataset) (h : Hop) (n : Term) : List Term :=
  (data.statements.map fun s => if h.isInverse then s.subject else s.object).filter
    fun m => data.Leads h n m

theorem mem_neighbours {data : Dataset} {h : Hop} {n m : Term} :
    m ∈ data.neighbours h n ↔ data.Leads h n m := by
  simp only [neighbours, List.mem_filter, decide_eq_true_eq, List.mem_map, and_iff_right_iff_imp]
  intro hm
  unfold Leads at hm
  cases hi : h.isInverse with
  | true =>
      rw [hi, if_pos rfl] at hm
      exact ⟨_, hm, by simp⟩
  | false =>
      rw [hi, if_neg (by simp)] at hm
      exact ⟨_, hm, by simp⟩

end Sparql.Dataset

/-- Where a path has come to: an entity of a type, or its absence, and whether an optional property
was passed. -/
structure Spot where
  type : EntityType
  entity : Option Term
  isOptional : Bool := false

namespace Spot

variable (schema : Schema) (data : Dataset)

/-- Over one navigation property. -/
def step (spot : Spot) (name : String) : Option Spot := do
  let p ← spot.type.property? name
  let hop ← (schema.hop p).toOption
  let type ← (schema.targetType p).toOption
  return ⟨type, spot.entity.bind (data.neighbour? hop), spot.isOptional || !p.isMandatory⟩

def follow (spot : Spot) : List String → Option Spot
  | [] => some spot
  | name :: names => (spot.step schema data name).bind (follow · names)

/-- The value of a property that is no foreign key, and whether it may be absent. -/
def ownValue (spot : Spot) (p : Property) : Option Term × Bool :=
  (spot.entity.bind (data.neighbour? p.valueHop), spot.isOptional || !p.isMandatory)

def value (spot : Spot) (name : String) : Option (Option Term × Bool) := do
  let p ← spot.type.property? name
  match p.foreignKeyOf with
  | none => return spot.ownValue data p
  | some navigation =>
    let related ← spot.step schema data navigation
    let i ← related.type.property? idName
    return related.ownValue data i

/-- The type of the elements of a collection, and the elements. -/
def elements (spot : Spot) (name : String) : Option (EntityType × List Term) := do
  let p ← spot.type.property? name
  let hop ← (schema.hop p).toOption
  let type ← (schema.targetType p).toOption
  return (type, spot.entity.elim [] (data.neighbours hop))

end Spot

/-- What a lambda variable stands for in turn: the elements, or nothing if there are none. -/
def candidates (elements : List Term) : List (Option Term) :=
  if elements.isEmpty then [none] else elements.map some

namespace Filter

abbrev Setting := String → Option Spot

def startAt (here : Spot) (setting : Setting) : List String → Spot × List String
  | [] => (here, [])
  | first :: rest =>
    match setting first with
    | some spot => (spot, rest)
    | none => (here, first :: rest)

section Paths

variable (schema : Schema) (data : Dataset) (here : Spot) (setting : Setting) (path : List String)

def wayTo : Option (Spot × String) := do
  let (spot, rest) := startAt here setting path
  let last ← rest.getLast?
  let spot ← spot.follow schema data rest.dropLast
  return (spot, last)

def valueAt : Option (Option Term × Bool) :=
  (wayTo schema data here setting path).bind fun (spot, last) => spot.value schema data last

def elementsAt : Option (EntityType × List Term) :=
  (wayTo schema data here setting path).bind fun (spot, last) => spot.elements schema data last

end Paths

def mayBeAbsent (schema : Schema) (data : Dataset) : Filter → Spot → Setting → Bool
  | null, _, _ => true
  | property path, here, setting => (valueAt schema data here setting path).any (·.2)
  | parentheses inner, here, setting => inner.mayBeAbsent schema data here setting
  | _, _, _ => false

def isVariable : Filter → Bool
  | null => true
  | property _ => true
  | parentheses inner => inner.isVariable
  | _ => false

def equality (ops : Operators) (absentAreEqual : Bool) : Option Term → Option Term → Option Term
  | some a, some b => (ops.equal a b).map .ofBool
  | none, none => if absentAreEqual then some (.ofBool true) else none
  | _, _ => none

/-- The value of a condition at an entity; `none` is an absent value or an error. -/
def value (ops : Operators) (schema : Schema) (data : Dataset) :
    Filter → Spot → Setting → Option Term
  | string text, _, _ => some (.ofString text)
  | number v, _, _ => (numberText v).toOption.map .ofNumeral
  | boolean b, _, _ => some (.ofBool b)
  | null, _, _ => none
  | and left right, here, setting =>
    (conjunction ((left.value ops schema data here setting).bind ops.truth)
      ((right.value ops schema data here setting).bind ops.truth)).map .ofBool
  | or left right, here, setting =>
    (disjunction ((left.value ops schema data here setting).bind ops.truth)
      ((right.value ops schema data here setting).bind ops.truth)).map .ofBool
  | eq left right, here, setting =>
    equality ops
      (left.isVariable && right.isVariable &&
        (left.mayBeAbsent schema data here setting || right.mayBeAbsent schema data here setting))
      (left.value ops schema data here setting) (right.value ops schema data here setting)
  | parentheses inner, here, setting => inner.value ops schema data here setting
  | property path, here, setting => (valueAt schema data here setting path).bind (·.1)
  | any path lambda predicate, here, setting =>
    (elementsAt schema data here setting path).map fun (type, elements) =>
      .ofBool ((candidates elements).any fun m =>
        (predicate.value ops schema data here
          (Function.update setting lambda (some ⟨type, m, false⟩))).bind ops.truth == some true)

/-- Whether a condition is satisfied: an error counts as not satisfied. -/
def holds (ops : Operators) (schema : Schema) (data : Dataset) (f : Filter) (here : Spot)
    (setting : Setting) : Bool :=
  (f.value ops schema data here setting).bind ops.truth == some true

/-- The names that paths start with, but for lambda variables that are bound inside. -/
def heads : Filter → List String
  | and left right => left.heads ++ right.heads
  | or left right => left.heads ++ right.heads
  | eq left right => left.heads ++ right.heads
  | parentheses inner => inner.heads
  | property path => path.take 1
  | any path lambda predicate => path.take 1 ++ predicate.heads.filter (· ≠ lambda)
  | _ => []

/-- Every `any` is evaluated only where the lambda variables that it depends on stand for something. -/
def Grounded (schema : Schema) (data : Dataset) : Filter → Spot → Setting → Prop
  | and left right, here, setting =>
    left.Grounded schema data here setting ∧ right.Grounded schema data here setting
  | or left right, here, setting =>
    left.Grounded schema data here setting ∧ right.Grounded schema data here setting
  | eq left right, here, setting =>
    left.Grounded schema data here setting ∧ right.Grounded schema data here setting
  | parentheses inner, here, setting => inner.Grounded schema data here setting
  | any path lambda predicate, here, setting =>
    (∀ name ∈ (any path lambda predicate).heads, ∀ spot, setting name = some spot → spot.entity.isSome) ∧
      ∀ type elements, elementsAt schema data here setting path = some (type, elements) →
        ∀ m ∈ candidates elements,
          predicate.Grounded schema data here (Function.update setting lambda (some ⟨type, m, false⟩))
  | _, _, _ => True

end Filter
end EntityGraph
