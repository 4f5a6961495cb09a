import EntityGraph.Branch.Forest
import EntityGraph.Expand.Tree

/-!
# The shape of a read

An expand tree, resolved at an entity type, gives the shape of what is read: all elementary
properties, and of the navigation properties the expanded ones, each with the shape of the
entities it leads to; all in the order of the schema. Names of the tree that are no navigation
properties do not show in the shape; whether there are any is a question of its own.
-/
namespace EntityGraph

inductive Shape where
  | nil
  | value (property : Property) (rest : Shape)
  | navigation (property : Property) (target : EntityType) (below rest : Shape)
  deriving DecidableEq, Repr

namespace Shape

/-- What is read of an entity with these properties, if `children` gives for expanded names the
type they lead to and the shape there. -/
def ofProperties (children : List (String × Except SchemaError (EntityType × Shape))) :
    List Property → Except SchemaError Shape
  | [] => .ok nil
  | p :: rest =>
    if p.isElementary then do return value p (← ofProperties children rest)
    else
      match children.lookup p.name with
      | none => ofProperties children rest
      | some child => do
        let (target, below) ← child
        return navigation p target below (← ofProperties children rest)

/-- For the names of a tree that are properties of `owner`, the type they lead to and the shape
there. -/
def children (schema : Schema) :
    ExpandTree → EntityType → List (String × Except SchemaError (EntityType × Shape))
  | .nil, _ => []
  | .cons name below rest, owner =>
    match owner.property? name with
    | none => children schema rest owner
    | some p =>
      let child := do
        let target ← schema.targetType p
        let shape ← ofProperties (children schema below target) target.properties
        return (target, shape)
      (name, child) :: children schema rest owner

def ofExpand (schema : Schema) (owner : EntityType) (expand : ExpandTree) :
    Except SchemaError Shape :=
  ofProperties (children schema expand owner) owner.properties

def forest (schema : Schema) (owner : EntityType) : Shape → Except SchemaError Forest
  | nil => .ok .nil
  | value p rest => do
    let branch ← Branch.ofProperty schema owner p
    return .cons branch .nil (← forest schema owner rest)
  | navigation p target below rest => do
    let branch ← Branch.ofProperty schema owner p
    let inner ← forest schema target below
    return .cons branch inner (← forest schema owner rest)

end Shape
end EntityGraph
