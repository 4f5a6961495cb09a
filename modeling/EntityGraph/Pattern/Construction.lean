import EntityGraph.Pattern.Basic

/-!
# Constructions of patterns

A construction is a script of building steps. A step may hold a script of its own, for the part
of the pattern that the step leads to or for a pattern that is built apart and then added. The
only step that can fail is a merge at a different root; it ends the construction, and what was
built before it stays.
-/
namespace EntityGraph

inductive Construction where
  | done
  | leaf (predicate term : String) (next : Construction)
  | edge (e : Edge) (nested next : Construction)
  | slot (nested next : Construction)
  | alternative (nested next : Construction)
  | conjunct (root : String) (nested next : Construction)
  /-- Add a pattern that is built apart as a conjunct. -/
  | addConjunct (root : String) (apart next : Construction)
  /-- Merge a pattern that is built apart. -/
  | merge (root : String) (apart next : Construction)
  deriving DecidableEq, Repr, Inhabited

namespace Construction

/-- What a construction adds to `body`, the pattern at `root`, and why it ended early. -/
@[grind =] def run : Construction → String → Body → Body × Option PatternError
  | done, _, body => (body, none)
  | leaf predicate term next, root, body => next.run root (body.addLeaf predicate term)
  | edge e nested next, root, body =>
    match nested.run e.target .nil with
    | (inner, some e') => (body.merge (.edge e inner .nil), some e')
    | (inner, none) => next.run root (body.merge (.edge e inner .nil))
  | slot nested next, root, body =>
    match nested.run root .nil with
    | (inner, some e) => (body.merge (.alternative true inner .nil), some e)
    | (inner, none) => next.run root (body.merge (.alternative true inner .nil))
  | alternative nested next, root, body =>
    match nested.run root .nil with
    | (inner, some e) => (body.merge (.alternative false inner .nil), some e)
    | (inner, none) => next.run root (body.merge (.alternative false inner .nil))
  | conjunct own nested next, root, body =>
    match nested.run own .nil with
    | (inner, some e) => (body.merge (.conjunct own inner .nil), some e)
    | (inner, none) => next.run root (body.merge (.conjunct own inner .nil))
  | addConjunct own apart next, root, body =>
    match apart.run own .nil with
    | (_, some e) => (body, some e)
    | (inner, none) => next.run root (body.merge (.conjunct own inner .nil))
  | merge own apart next, root, body =>
    match apart.run own .nil with
    | (_, some e) => (body, some e)
    | (inner, none) =>
      match Pattern.merge ⟨root, body⟩ ⟨own, inner⟩ with
      | .error e => (body, some e)
      | .ok merged => next.run root merged.body

end Construction
end EntityGraph
