import EntityGraph.Branch.Forest
import EntityGraph.Placement.Builtin

/-!
# Placing a forest

The branches of a forest are placed one after the other, each before what hangs below it. The
result is the pattern that they make up. If a branch cannot be placed, the pattern and the
names made up to that point are kept beside the reason.
-/
namespace EntityGraph

structure Placed where
  body : Body
  names : Naming
  failure : Option PlacementError

namespace Forest

def place (rules : List Rule) : Forest → Position → Naming → Placed
  | nil, _, names => ⟨.nil, names, none⟩
  | cons branch below rest, position, names =>
    match (Rule.choose rules branch).bind fun rule => rule.place branch position names with
    | .error e => ⟨.nil, names, some e⟩
    | .ok placement =>
      let inner := below.place rules placement.position placement.names
      let body := placement.route.wrap inner.body
      match inner.failure with
      | some e => ⟨body, inner.names, some e⟩
      | none =>
        let after := rest.place rules position inner.names
        ⟨body.merge after.body, after.names, after.failure⟩

/-- The pattern of a forest that can be placed as a whole. -/
def placeAll (rules : List Rule) (forest : Forest) (position : Position) (names : Naming) :
    Except PlacementError (Body × Naming) :=
  let placed := forest.place rules position names
  match placed.failure with
  | some e => .error e
  | none => .ok (placed.body, placed.names)

end Forest
end EntityGraph
