import EntityGraph.Pattern.Basic
import EntityGraph.Sparql.Group

/-!
# Patterns as groups

The group of a pattern has the leaves, the plain edges, what hangs below the plain edges, the
conjuncts, the alternatives and the optional edges, in this order; conjuncts and alternatives
stand in braces, and those that say nothing are left out.

Inside braces an optional edge needs something to be optional to. A pattern's anchor is its
first leaf or else its first plain edge; for what hangs below an edge it is that edge, for
alternatives the anchor of the pattern they belong to, and for a conjunct at the same root
the anchor of the pattern around it. A braced pattern that has optional edges and no anchor of
its own repeats the one it inherits.
-/
namespace EntityGraph

open Sparql (Triple Group)

def Edge.triple (root : String) (e : Edge) : Triple :=
  if e.hop.isInverse then ⟨e.target, e.hop.predicate, root⟩ else ⟨root, e.hop.predicate, e.target⟩

namespace Body

def firstLeaf? (root : String) : Body → Option Triple
  | nil => none
  | leaf predicate term _ => some ⟨root, predicate, term⟩
  | edge _ _ rest => rest.firstLeaf? root
  | alternative _ _ rest => rest.firstLeaf? root
  | conjunct _ _ rest => rest.firstLeaf? root

def firstPlainEdge? (root : String) : Body → Option Triple
  | nil => none
  | leaf _ _ rest => rest.firstPlainEdge? root
  | edge e _ rest => if e.isOptional then rest.firstPlainEdge? root else some (e.triple root)
  | alternative _ _ rest => rest.firstPlainEdge? root
  | conjunct _ _ rest => rest.firstPlainEdge? root

def ownAnchor? (root : String) (body : Body) : Option Triple :=
  (body.firstLeaf? root).or (body.firstPlainEdge? root)

def hasOptionalEdge : Body → Bool
  | nil => false
  | leaf _ _ rest => rest.hasOptionalEdge
  | edge e _ rest => e.isOptional || rest.hasOptionalEdge
  | alternative _ _ rest => rest.hasOptionalEdge
  | conjunct _ _ rest => rest.hasOptionalEdge

/-- The inherited anchor, where a braced pattern repeats it. -/
def repeatedAnchor (root : String) (inherited : Option Triple) (body : Body) : Group :=
  match body.ownAnchor? root, inherited with
  | none, some anchor => if body.hasOptionalEdge then .triple anchor .nil else .nil
  | _, _ => .nil

/-- The parts of a group before they are put in order. -/
structure Sections where
  leaves : Group := .nil
  plain : Group := .nil
  below : Group := .nil
  conjuncts : Group := .nil
  alternatives : List Group := []
  optionals : Group := .nil

def Sections.group (s : Sections) : Group :=
  let union : Group := if s.alternatives.isEmpty then .nil else .alternatives s.alternatives .nil
  s.leaves.append (s.plain.append (s.below.append (s.conjuncts.append (union.append s.optionals))))

/-- The parts of the group of a pattern at `root`, whose anchor is `anchor`. -/
def sections (root : String) (anchor : Option Triple) : Body → Sections
  | nil => {}
  | leaf predicate term rest =>
    let s := rest.sections root anchor
    { s with leaves := .triple ⟨root, predicate, term⟩ s.leaves }
  | edge e below rest =>
    let s := rest.sections root anchor
    let here := e.triple root
    let inner := (below.sections e.target ((below.ownAnchor? e.target).or (some here))).group
    if e.isOptional then { s with optionals := .optional (.triple here inner) s.optionals }
    else { s with plain := .triple here s.plain, below := inner.append s.below }
  | alternative _ body rest =>
    let s := rest.sections root anchor
    let inner := (body.repeatedAnchor root anchor).append
      (body.sections root ((body.ownAnchor? root).or anchor)).group
    if inner.isNil then s else { s with alternatives := inner :: s.alternatives }
  | conjunct own body rest =>
    let s := rest.sections root anchor
    let inherited := if own = root then anchor else none
    let inner := (body.repeatedAnchor own inherited).append
      (body.sections own ((body.ownAnchor? own).or inherited)).group
    if inner.isNil then s else { s with conjuncts := .alternatives [inner] s.conjuncts }

end Body

namespace Pattern

def group (p : Pattern) : Group :=
  (p.body.sections p.root (p.body.ownAnchor? p.root)).group

def text (p : Pattern) : String := p.group.text

end Pattern
end EntityGraph
