import EntityGraph.Pattern.Hop

/-!
# Graph patterns

A pattern is a tree of edges that hangs at a root term. Beside its edges it has leaves (edges
to fixed terms), alternatives, of which a solution takes one, and conjuncts, patterns of their
own that have to match as well. All alternatives hang at the root of the pattern they belong
to; at most one of them is the slot that the single-valued parts share.

The parts of a pattern are kept in the order in which they were added. Edges that agree in
everything but what hangs below them are one edge, leaves are not repeated, and whatever is
added to the slot is added to the same alternative. So adding one pattern to another is the
only operation that is needed to build patterns.
-/
namespace EntityGraph

/-- An edge to a variable. If it is optional, the pattern also matches without it. -/
structure Edge where
  hop : Hop
  isOptional : Bool
  target : String
  deriving DecidableEq, Repr

/-- The parts of a pattern. -/
inductive Body where
  | nil
  | leaf (predicate term : String) (rest : Body)
  | edge (edge : Edge) (below rest : Body)
  | alternative (isSlot : Bool) (body rest : Body)
  | conjunct (root : String) (body rest : Body)
  deriving DecidableEq, Repr

namespace Body

@[grind =] def append : Body → Body → Body
  | nil, added => added
  | leaf predicate term rest, added => leaf predicate term (rest.append added)
  | edge e below rest, added => edge e below (rest.append added)
  | alternative isSlot body rest, added => alternative isSlot body (rest.append added)
  | conjunct root body rest, added => conjunct root body (rest.append added)

@[grind =] def addLeaf (predicate term : String) : Body → Body
  | nil => leaf predicate term nil
  | leaf p t rest =>
    if p = predicate ∧ t = term then leaf p t rest else leaf p t (rest.addLeaf predicate term)
  | edge e below rest => edge e below (rest.addLeaf predicate term)
  | alternative isSlot body rest => alternative isSlot body (rest.addLeaf predicate term)
  | conjunct root body rest => conjunct root body (rest.addLeaf predicate term)

@[grind =] def updateEdge (e : Edge) (f : Body → Body) : Body → Body
  | nil => edge e (f nil) nil
  | leaf predicate term rest => leaf predicate term (rest.updateEdge e f)
  | edge e' below rest =>
    if e' = e then edge e' (f below) rest else edge e' below (rest.updateEdge e f)
  | alternative isSlot body rest => alternative isSlot body (rest.updateEdge e f)
  | conjunct root body rest => conjunct root body (rest.updateEdge e f)

@[grind =] def updateSlot (f : Body → Body) : Body → Body
  | nil => alternative true (f nil) nil
  | leaf predicate term rest => leaf predicate term (rest.updateSlot f)
  | edge e below rest => edge e below (rest.updateSlot f)
  | alternative true body rest => alternative true (f body) rest
  | alternative false body rest => alternative false body (rest.updateSlot f)
  | conjunct root body rest => conjunct root body (rest.updateSlot f)

/-- Add the parts of a second pattern one after the other. -/
@[grind =] def merge (left : Body) : Body → Body
  | nil => left
  | leaf predicate term rest => (left.addLeaf predicate term).merge rest
  | edge e below rest => (left.updateEdge e fun there => there.merge below).merge rest
  | alternative true body rest => (left.updateSlot fun there => there.merge body).merge rest
  | alternative false body rest => (left.append (alternative false body nil)).merge rest
  | conjunct root body rest => (left.append (conjunct root body nil)).merge rest

/-- Whether the pattern says nothing. -/
def isEmpty : Body → Bool
  | nil => true
  | leaf _ _ _ => false
  | edge _ _ _ => false
  | alternative _ body rest => body.isEmpty && rest.isEmpty
  | conjunct _ body rest => body.isEmpty && rest.isEmpty

end Body

structure Pattern where
  root : String
  body : Body := .nil
  deriving DecidableEq, Repr

inductive PatternError where
  | rootMismatch (left right : String)
  deriving DecidableEq, Repr

def PatternError.message : PatternError → String
  | rootMismatch left right =>
    s!"Cannot merge graph pattern rooted at `{right}` into pattern rooted at `{left}`"

/-- Patterns can be merged when they hang at the same root. -/
def Pattern.merge (left right : Pattern) : Except PatternError Pattern :=
  if left.root = right.root then .ok { left with body := left.body.merge right.body }
  else .error (.rootMismatch left.root right.root)

end EntityGraph
