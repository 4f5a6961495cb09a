import EntityGraph.Pattern.Group
import EntityGraph.Proofs.Algebra.Group
import EntityGraph.Proofs.Pattern.Grammar
import EntityGraph.Proofs.Pattern.Parts

/-!
# Patterns as they are written

What is written for a pattern, part by part: the triples of its leaves, those of its plain edges, what
hangs below the plain edges, each conjunct that says something in braces of its own, one union of the
alternatives that say something, and each optional edge with what hangs below it. In braces, optional
edges of a pattern without a triple at its own root follow the nearest triple around that binds it.

A pattern of names is written so that reading the text gives exactly this group. Every leaf and every
edge of the pattern is in it and no other triple, nothing in braces is empty, and the text is empty
only for patterns that say nothing.
-/
namespace EntityGraph

open Sparql (Triple Group IsName)

namespace Body

@[grind =] def leaves : Body → List (String × String)
  | nil => []
  | leaf predicate term rest => (predicate, term) :: rest.leaves
  | edge _ _ rest => rest.leaves
  | alternative _ _ rest => rest.leaves
  | conjunct _ _ rest => rest.leaves

theorem leaves_append (B C : Body) : (B.append C).leaves = B.leaves ++ C.leaves := by
  induction B with
  | nil => rfl
  | leaf predicate term rest ih => simp [append, leaves, ih]
  | edge e below rest _ ih => exact ih
  | alternative isSlot body rest _ ih => exact ih
  | conjunct own body rest _ ih => exact ih

def plains (body : Body) : List (Edge × Body) := body.edges.filter fun (e, _) => !e.isOptional

def optionals (body : Body) : List (Edge × Body) := body.edges.filter fun (e, _) => e.isOptional

def choices (body : Body) : List Body := body.alternatives.filter fun inner => !inner.isEmpty

def others (body : Body) : List (String × Body) := body.conjuncts.filter fun (_, inner) => !inner.isEmpty

/-- The triples at the root that have to match: leaves before plain edges. -/
def ownTriples (root : String) (body : Body) : List Triple :=
  (body.leaves.map fun (predicate, term) => ⟨root, predicate, term⟩) ++
    body.plains.map fun (e, _) => e.triple root

/-- What stands before a pattern in braces, if `inherited` binds its root outside of them. -/
def lead (root : String) (inherited : Option Triple) (body : Body) : List Triple :=
  if (body.ownTriples root).isEmpty && !body.optionals.isEmpty then inherited.toList else []

/-- An anchor binds the root of a conjunct only if the conjunct hangs at the same root. -/
def shared (root own : String) (anchor : Option Triple) : Option Triple :=
  if own = root then anchor else none

end Body

namespace Sparql.Group

def ofTriples (triples : List Triple) : Group := triples.foldr triple nil

def concat (groups : List Group) : Group := groups.foldr append nil

def union (groups : List Group) : Group :=
  if groups.isEmpty then nil else alternatives groups nil

end Sparql.Group

namespace Body

theorem sizeOf_edges {body : Body} {entry : Edge × Body} (h : entry ∈ body.edges) :
    sizeOf entry.2 < sizeOf body :=
  sizeOf_inners (mem_inners.mpr (Or.inl ⟨entry.1, h⟩))

theorem sizeOf_alternatives {body : Body} {inner : Body} (h : inner ∈ body.alternatives) :
    sizeOf inner < sizeOf body :=
  sizeOf_inners (mem_inners.mpr (Or.inr (Or.inl h)))

theorem sizeOf_conjuncts {body : Body} {entry : String × Body} (h : entry ∈ body.conjuncts) :
    sizeOf entry.2 < sizeOf body :=
  sizeOf_inners (mem_inners.mpr (Or.inr (Or.inr ⟨entry.1, h⟩)))

/-- What is written for a pattern at `root`, if the triple `inherited` binds the root around it. -/
def written (root : String) (inherited : Option Triple) (body : Body) : Group :=
  let anchor := (body.ownTriples root).head?.or inherited
  (Group.ofTriples (body.ownTriples root)).append <|
  (Group.concat (body.plains.attach.map fun ⟨(e, below), _⟩ =>
    below.written e.target (some (e.triple root)))).append <|
  (Group.concat (body.others.attach.map fun ⟨(own, inner), _⟩ =>
    .alternatives [(Group.ofTriples (inner.lead own (shared root own anchor))).append
      (inner.written own (shared root own anchor))] .nil)).append <|
  (Group.union (body.choices.attach.map fun ⟨inner, _⟩ =>
    (Group.ofTriples (inner.lead root anchor)).append (inner.written root anchor))).append <|
  Group.concat (body.optionals.attach.map fun ⟨(e, below), _⟩ =>
    .optional (.triple (e.triple root) (below.written e.target (some (e.triple root)))) .nil)
termination_by sizeOf body
decreasing_by
  · exact sizeOf_edges (List.mem_filter.mp ‹_›).1
  · exact sizeOf_conjuncts (List.mem_filter.mp ‹_›).1
  · exact sizeOf_alternatives (List.mem_filter.mp ‹_›).1
  · exact sizeOf_edges (List.mem_filter.mp ‹_›).1

theorem written_eq (root : String) (inherited : Option Triple) (body : Body) :
    body.written root inherited =
      let anchor := (body.ownTriples root).head?.or inherited
      (Group.ofTriples (body.ownTriples root)).append <|
      (Group.concat (body.plains.map fun (e, below) => below.written e.target (some (e.triple root)))).append
      <| (Group.concat (body.others.map fun (own, inner) =>
        .alternatives [(Group.ofTriples (inner.lead own (shared root own anchor))).append
          (inner.written own (shared root own anchor))] .nil)).append <|
      (Group.union (body.choices.map fun inner =>
        (Group.ofTriples (inner.lead root anchor)).append (inner.written root anchor))).append <|
      Group.concat (body.optionals.map fun (e, below) =>
        .optional (.triple (e.triple root) (below.written e.target (some (e.triple root)))) .nil) := by
  rw [written]
  simp only [List.map_attach_eq_pmap, List.pmap_eq_map]

end Body

namespace Sparql.Group

@[simp] theorem isNil_nil : nil.isNil = true := rfl

@[simp] theorem isNil_triple (t : Triple) (rest : Group) : (triple t rest).isNil = false := rfl

@[simp] theorem isNil_alternatives (bodies : List Group) (rest : Group) :
    (alternatives bodies rest).isNil = false := rfl

@[simp] theorem isNil_optional (body rest : Group) : (optional body rest).isNil = false := rfl

theorem ofTriples_append (ts us : List Triple) :
    ofTriples (ts ++ us) = (ofTriples ts).append (ofTriples us) := by
  induction ts with
  | nil => rfl
  | cons t ts ih => simpa [ofTriples, append] using ih

theorem isNil_append (f g : Group) : (f.append g).isNil = (f.isNil && g.isNil) := by
  cases f <;> rfl

end Sparql.Group

namespace Body

variable {root : String} {body : Body} {anchor inherited : Option Triple}

theorem firstLeaf?_eq (root : String) (body : Body) :
    body.firstLeaf? root = (body.leaves.map fun (predicate, term) => ⟨root, predicate, term⟩).head? := by
  induction body with
  | nil => rfl
  | leaf predicate term rest _ => rfl
  | edge e below rest _ ih => exact ih
  | alternative isSlot inner rest _ ih => exact ih
  | conjunct own inner rest _ ih => exact ih

theorem firstPlainEdge?_eq (root : String) (body : Body) :
    body.firstPlainEdge? root = (body.plains.map fun (e, _) => e.triple root).head? := by
  induction body with
  | nil => rfl
  | leaf predicate term rest ih => exact ih
  | edge e below rest _ ih =>
      unfold firstPlainEdge?
      cases ho : e.isOptional with
      | true => simpa [plains, edges, ho] using ih
      | false => simp [plains, edges, ho]
  | alternative isSlot inner rest _ ih => exact ih
  | conjunct own inner rest _ ih => exact ih

theorem ownAnchor?_eq (root : String) (body : Body) :
    body.ownAnchor? root = (body.ownTriples root).head? := by
  rw [ownAnchor?, firstLeaf?_eq, firstPlainEdge?_eq, ownTriples, List.head?_append]

theorem hasOptionalEdge_eq (body : Body) : body.hasOptionalEdge = !body.optionals.isEmpty := by
  induction body with
  | nil => rfl
  | leaf predicate term rest ih => exact ih
  | edge e below rest _ ih =>
      unfold hasOptionalEdge
      cases ho : e.isOptional with
      | true => simp [optionals, edges, ho]
      | false => simpa [optionals, edges, ho] using ih
  | alternative isSlot inner rest _ ih => exact ih
  | conjunct own inner rest _ ih => exact ih

theorem repeatedAnchor_eq (root : String) (inherited : Option Triple) (body : Body) :
    body.repeatedAnchor root inherited = Group.ofTriples (body.lead root inherited) := by
  unfold repeatedAnchor lead
  rw [ownAnchor?_eq, hasOptionalEdge_eq]
  cases body.ownTriples root with
  | cons t rest => simp [Group.ofTriples]
  | nil =>
      cases inherited with
      | none => simp [Group.ofTriples]
      | some t =>
          cases body.optionals with
          | nil => simp [Group.ofTriples]
          | cons entry rest => simp [Group.ofTriples]

theorem isNil_group (s : Sections) : s.group.isNil = (s.leaves.isNil && (s.plain.isNil && (s.below.isNil &&
    (s.conjuncts.isNil && (s.alternatives.isEmpty && s.optionals.isNil))))) := by
  unfold Sections.group
  cases s.alternatives with
  | nil => simp [Group.isNil_append]
  | cons g rest => simp [Group.isNil_append]

theorem hasOptionalEdge_of_isEmpty (h : body.isEmpty = true) : body.hasOptionalEdge = false := by
  induction body with
  | nil => rfl
  | leaf predicate term rest _ => simp [isEmpty] at h
  | edge e below rest _ _ => simp [isEmpty] at h
  | alternative isSlot inner rest _ ih => exact ih (Bool.and_eq_true_iff.mp h).2
  | conjunct own inner rest _ ih => exact ih (Bool.and_eq_true_iff.mp h).2

theorem isNil_repeatedAnchor (h : body.isEmpty = true) (root : String) (inherited : Option Triple) :
    (body.repeatedAnchor root inherited).isNil = true := by
  unfold repeatedAnchor
  rw [hasOptionalEdge_of_isEmpty h]
  split <;> rfl

def inBraces (root : String) (inherited : Option Triple) (body : Body) : Group :=
  (body.repeatedAnchor root inherited).append
    (body.sections root ((body.ownAnchor? root).or inherited)).group

theorem sections_alternative (root : String) (anchor : Option Triple) (isSlot : Bool) (inner rest : Body) :
    (alternative isSlot inner rest).sections root anchor =
      if (inner.inBraces root anchor).isNil then rest.sections root anchor
      else { rest.sections root anchor with
        alternatives := inner.inBraces root anchor :: (rest.sections root anchor).alternatives } := rfl

theorem sections_conjunct (root : String) (anchor : Option Triple) (own : String) (inner rest : Body) :
    (conjunct own inner rest).sections root anchor =
      if (inner.inBraces own (shared root own anchor)).isNil then rest.sections root anchor
      else { rest.sections root anchor with
        conjuncts := .alternatives [inner.inBraces own (shared root own anchor)]
          (rest.sections root anchor).conjuncts } := rfl

def belowEdge (root : String) (e : Edge) (below : Body) : Group :=
  (below.sections e.target ((below.ownAnchor? e.target).or (some (e.triple root)))).group

theorem sections_edge (root : String) (anchor : Option Triple) (e : Edge) (below rest : Body) :
    (edge e below rest).sections root anchor =
      if e.isOptional then { rest.sections root anchor with
        optionals := .optional (.triple (e.triple root) (below.belowEdge root e))
          (rest.sections root anchor).optionals }
      else { rest.sections root anchor with
        plain := .triple (e.triple root) (rest.sections root anchor).plain
        below := (below.belowEdge root e).append (rest.sections root anchor).below } := rfl

theorem isNil_inBraces_of (h : ∀ anchor, (body.sections root anchor).group.isNil = body.isEmpty)
    (inherited : Option Triple) : (body.inBraces root inherited).isNil = body.isEmpty := by
  rw [inBraces, Group.isNil_append, h]
  cases hempty : body.isEmpty with
  | false => simp
  | true => simp [isNil_repeatedAnchor hempty]

theorem isNil_sections (body : Body) (root : String) (anchor : Option Triple) :
    (body.sections root anchor).group.isNil = body.isEmpty := by
  induction body generalizing root anchor with
  | nil => rfl
  | leaf predicate term rest _ => simp [sections, isNil_group, isEmpty]
  | edge e below rest _ _ =>
      rw [sections_edge]
      cases e.isOptional with
      | true => simp [isNil_group, isEmpty]
      | false => simp [isNil_group, isEmpty]
  | alternative isSlot inner rest ihInner ih =>
      have hrest := ih root anchor
      rw [sections_alternative, isNil_inBraces_of (ihInner root), isEmpty]
      rw [isNil_group] at hrest ⊢
      cases inner.isEmpty with
      | true => simpa using hrest
      | false => simp
  | conjunct own inner rest ihInner ih =>
      have hrest := ih root anchor
      rw [sections_conjunct, isNil_inBraces_of (ihInner own), isEmpty]
      rw [isNil_group] at hrest ⊢
      cases inner.isEmpty with
      | true => simpa using hrest
      | false => simp

theorem isNil_inBraces (body : Body) (root : String) (inherited : Option Triple) :
    (body.inBraces root inherited).isNil = body.isEmpty :=
  isNil_inBraces_of (isNil_sections body root) inherited

/-- The sections of a group hold what is written for the parts of a pattern. -/
structure Arranged (root : String) (anchor : Option Triple) (body : Body) (s : Sections) : Prop where
  leaves : s.leaves = Group.ofTriples (body.leaves.map fun (predicate, term) => ⟨root, predicate, term⟩)
  plain : s.plain = Group.ofTriples (body.plains.map fun (e, _) => e.triple root)
  below : s.below = Group.concat (body.plains.map fun (e, below) =>
    below.written e.target (some (e.triple root)))
  conjuncts : s.conjuncts = Group.concat (body.others.map fun (own, inner) =>
    .alternatives [(Group.ofTriples (inner.lead own (shared root own anchor))).append
      (inner.written own (shared root own anchor))] .nil)
  alternatives : s.alternatives = body.choices.map fun inner =>
    (Group.ofTriples (inner.lead root anchor)).append (inner.written root anchor)
  optionals : s.optionals = Group.concat (body.optionals.map fun (e, below) =>
    .optional (.triple (e.triple root) (below.written e.target (some (e.triple root)))) .nil)

theorem Arranged.group_eq
    (h : ∀ anchor, body.Arranged root anchor (body.sections root anchor)) (inherited : Option Triple) :
    (body.sections root ((body.ownAnchor? root).or inherited)).group = body.written root inherited := by
  have harranged := h ((body.ownAnchor? root).or inherited)
  rw [Sections.group, harranged.leaves, harranged.plain, harranged.below, harranged.conjuncts,
    harranged.alternatives, harranged.optionals, written_eq, ownAnchor?_eq, ownTriples,
      Group.ofTriples_append,
    Group.append_assoc]
  rfl

theorem Arranged.inBraces_eq
    (h : ∀ anchor, body.Arranged root anchor (body.sections root anchor)) (inherited : Option Triple) :
    body.inBraces root inherited =
      (Group.ofTriples (body.lead root inherited)).append (body.written root inherited) := by
  rw [inBraces, repeatedAnchor_eq, Arranged.group_eq h]

theorem arranged (body : Body) (root : String) (anchor : Option Triple) :
    body.Arranged root anchor (body.sections root anchor) := by
  induction body generalizing root anchor with
  | nil => exact ⟨rfl, rfl, rfl, rfl, rfl, rfl⟩
  | leaf predicate term rest ih =>
      have hrest := ih root anchor
      exact ⟨congrArg _ hrest.leaves, hrest.plain, hrest.below, hrest.conjuncts, hrest.alternatives,
        hrest.optionals⟩
  | edge e below rest ihBelow ih =>
      have hrest := ih root anchor
      have hbelow : below.belowEdge root e = below.written e.target (some (e.triple root)) :=
        Arranged.group_eq (ihBelow e.target) _
      rw [sections_edge, hbelow]
      cases ho : e.isOptional with
      | true =>
          refine ⟨hrest.leaves, ?_, ?_, hrest.conjuncts, hrest.alternatives, ?_⟩
          · simpa [plains, edges, ho] using hrest.plain
          · simpa [plains, edges, ho] using hrest.below
          · simp [optionals, edges, ho, hrest.optionals, Group.concat, Group.append]
      | false =>
          refine ⟨hrest.leaves, ?_, ?_, hrest.conjuncts, hrest.alternatives, ?_⟩
          · simp [plains, edges, ho, hrest.plain, Group.ofTriples]
          · simp [plains, edges, ho, hrest.below, Group.concat]
          · simpa [optionals, edges, ho] using hrest.optionals
  | alternative isSlot inner rest ihInner ih =>
      have hrest := ih root anchor
      rw [sections_alternative, isNil_inBraces, Arranged.inBraces_eq (ihInner root)]
      cases hempty : inner.isEmpty with
      | true =>
          refine ⟨hrest.leaves, hrest.plain, hrest.below, hrest.conjuncts, ?_, hrest.optionals⟩
          simpa [choices, Body.alternatives, hempty] using hrest.alternatives
      | false =>
          refine ⟨hrest.leaves, hrest.plain, hrest.below, hrest.conjuncts, ?_, hrest.optionals⟩
          simp [choices, Body.alternatives, hempty, hrest.alternatives]
  | conjunct own inner rest ihInner ih =>
      have hrest := ih root anchor
      rw [sections_conjunct, isNil_inBraces, Arranged.inBraces_eq (ihInner own)]
      cases hempty : inner.isEmpty with
      | true =>
          refine ⟨hrest.leaves, hrest.plain, hrest.below, ?_, hrest.alternatives, hrest.optionals⟩
          simpa [others, Body.conjuncts, hempty] using hrest.conjuncts
      | false =>
          refine ⟨hrest.leaves, hrest.plain, hrest.below, ?_, hrest.alternatives, hrest.optionals⟩
          simp [others, Body.conjuncts, hempty, hrest.conjuncts, Group.concat, Group.append]

end Body

/-- What is written for a pattern. -/
def Pattern.written (p : Pattern) : Group := p.body.written p.root none

theorem Pattern.group_eq_written (p : Pattern) : p.group = p.written := by
  have h := Body.Arranged.group_eq (p.body.arranged p.root) none
  rwa [Option.or_none] at h

end EntityGraph
