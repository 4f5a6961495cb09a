import EntityGraph.Proofs.Pattern.Written

/-!
# Writing is faithful

A pattern of names is written so that reading its text gives exactly what is to be written for it.
Every leaf and every edge of the pattern is in it and there is no other triple: where a pattern in
braces repeats an anchor, that anchor is the triple of a leaf or of an edge around it. Nothing in
braces is empty, and the text is empty only for patterns that say nothing.
-/
namespace EntityGraph

open Sparql (Triple Group IsName)

namespace Sparql.Group

theorem triples_append (f g : Group) : (f.append g).triples = f.triples ++ g.triples := by
  cases f with
  | nil => rfl
  | triple t rest => simp [append, triples, triples_append rest]
  | alternatives bodies rest => simp [append, triples, triples_append rest]
  | optional body rest => simp [append, triples, triples_append rest]

theorem filled_append {f g : Group} : (f.append g).Filled ↔ f.Filled ∧ g.Filled := by
  cases f with
  | nil => simp [append, Filled]
  | triple t rest => simp [append, Filled, @filled_append rest g]
  | alternatives bodies rest => simp [append, Filled, @filled_append rest g, and_assoc]
  | optional body rest => simp [append, Filled, @filled_append rest g, and_assoc]

end Sparql.Group

namespace Body

variable {root : String} {body : Body} {anchor inherited : Option Triple} {t : Triple}

/-- The triples of all leaves and edges of a pattern. -/
def triples (root : String) : Body → List Triple
  | nil => []
  | leaf predicate term rest => ⟨root, predicate, term⟩ :: rest.triples root
  | edge e below rest => e.triple root :: (below.triples e.target ++ rest.triples root)
  | alternative _ inner rest => inner.triples root ++ rest.triples root
  | conjunct own inner rest => inner.triples own ++ rest.triples root

/-- The names that leaves and edges have to have: those of their roots as well. -/
def naming (P : String → Prop) : Condition where
  leaf root predicate term := P root ∧ P predicate ∧ P term
  edge root e := P root ∧ P e.hop.predicate ∧ P e.target
  conjunct _ _ := True

theorem Each.of_mem_triples {c : Condition} {P : Triple → Prop}
    (hleaf : ∀ root predicate term, c.leaf root predicate term → P ⟨root, predicate, term⟩)
    (hedge : ∀ root e, c.edge root e → P (e.triple root)) (h : body.Each c root)
    (ht : t ∈ body.triples root) : P t := by
  induction body generalizing root with
  | nil => simp [Body.triples] at ht
  | leaf predicate term rest ih =>
      obtain rfl | ht := List.mem_cons.mp ht
      · exact hleaf _ _ _ h.1
      · exact ih h.2 ht
  | edge e below rest ihBelow ih =>
      obtain rfl | ht := List.mem_cons.mp ht
      · exact hedge _ _ h.1
      · obtain ht | ht := List.mem_append.mp ht
        · exact ihBelow h.2.1 ht
        · exact ih h.2.2 ht
  | alternative isSlot inner rest ihInner ih =>
      obtain ht | ht := List.mem_append.mp ht
      · exact ihInner h.1 ht
      · exact ih h.2 ht
  | conjunct own inner rest ihInner ih =>
      obtain ht | ht := List.mem_append.mp ht
      · exact ihInner h.2.1 ht
      · exact ih h.2.2 ht

theorem Each.triples {P : String → Prop} (h : body.Each (naming P) root) (ht : t ∈ body.triples root) :
    P t.subject ∧ P t.predicate ∧ P t.object := by
  refine h.of_mem_triples (P := fun t => P t.subject ∧ P t.predicate ∧ P t.object) (fun _ _ _ hleaf => hleaf)
    (fun root e hedge => ?_) ht
  unfold Edge.triple
  split
  · exact ⟨hedge.2.2, hedge.2.1, hedge.1⟩
  · exact hedge

theorem Each.reroot {P : String → Prop} {root' : String} (h : body.Each (naming P) root) (hroot : P root') :
    body.Each (naming P) root' :=
  h.moved (fun _ _ hleaf => ⟨hroot, hleaf.2⟩) (fun _ hedge => ⟨hroot, hedge.2⟩) fun _ _ => trivial

theorem mem_of_firstLeaf? (h : body.firstLeaf? root = some t) : t ∈ body.triples root := by
  induction body with
  | nil => simp [firstLeaf?] at h
  | leaf predicate term rest _ =>
      obtain rfl := Option.some.inj h
      exact List.mem_cons_self
  | edge e below rest _ ih => exact List.mem_cons_of_mem _ (List.mem_append_right _ (ih h))
  | alternative isSlot inner rest _ ih => exact List.mem_append_right _ (ih h)
  | conjunct own inner rest _ ih => exact List.mem_append_right _ (ih h)

theorem mem_of_firstPlainEdge? (h : body.firstPlainEdge? root = some t) : t ∈ body.triples root := by
  induction body with
  | nil => simp [firstPlainEdge?] at h
  | leaf predicate term rest ih => exact List.mem_cons_of_mem _ (ih h)
  | edge e below rest _ ih =>
      unfold firstPlainEdge? at h
      split at h
      · exact List.mem_cons_of_mem _ (List.mem_append_right _ (ih h))
      · obtain rfl := Option.some.inj h
        exact List.mem_cons_self
  | alternative isSlot inner rest _ ih => exact List.mem_append_right _ (ih h)
  | conjunct own inner rest _ ih => exact List.mem_append_right _ (ih h)

theorem mem_of_anchor (h : (body.ownAnchor? root).or inherited = some t) :
    t ∈ body.triples root ∨ inherited = some t := by
  unfold ownAnchor? at h
  obtain h | ⟨-, h⟩ := Option.or_eq_some_iff.mp h
  · obtain h | ⟨-, h⟩ := Option.or_eq_some_iff.mp h
    · exact Or.inl (mem_of_firstLeaf? h)
    · exact Or.inl (mem_of_firstPlainEdge? h)
  · exact Or.inr h

theorem triples_group (s : Sections) : s.group.triples = s.leaves.triples ++ (s.plain.triples ++
    (s.below.triples ++ (s.conjuncts.triples ++
      (Group.unionTriples s.alternatives ++ s.optionals.triples)))) := by
  unfold Sections.group
  cases s.alternatives with
  | nil => simp [Group.triples_append, Group.triples, Group.unionTriples]
  | cons g rest => simp [Group.triples_append, Group.triples]

theorem mem_repeatedAnchor (h : t ∈ (body.repeatedAnchor root inherited).triples) : inherited = some t := by
  unfold repeatedAnchor at h
  split at h
  · split at h
    · simpa [Group.triples, eq_comm] using h
    · simp [Group.triples] at h
  · simp [Group.triples] at h

theorem mem_inBraces_of (h : ∀ anchor, t ∈ (body.sections root anchor).group.triples →
    t ∈ body.triples root ∨ anchor = some t) (ht : t ∈ (body.inBraces root inherited).triples) :
    t ∈ body.triples root ∨ inherited = some t := by
  rw [inBraces, Group.triples_append] at ht
  obtain ht | ht := List.mem_append.mp ht
  · exact Or.inr (mem_repeatedAnchor ht)
  · obtain ht | hanchor := h _ ht
    · exact Or.inl ht
    · exact mem_of_anchor hanchor

theorem mem_of_sections (ht : t ∈ (body.sections root anchor).group.triples) :
    t ∈ body.triples root ∨ anchor = some t := by
  induction body generalizing root anchor with
  | nil => simp [sections, triples_group, Group.triples, Group.unionTriples] at ht
  | leaf predicate term rest ih =>
      have hrest := @ih root anchor
      simp only [triples_group, List.mem_append] at ht hrest
      simp only [sections, Group.triples, List.mem_cons, Body.triples] at ht ⊢
      grind
  | edge e below rest ihBelow ih =>
      have hrest := @ih root anchor
      have hbelow : t ∈ (below.belowEdge root e).triples → t = e.triple root ∨
        t ∈ below.triples e.target := by
        intro h
        obtain h | hanchor := ihBelow h
        · exact Or.inr h
        · obtain h | h := mem_of_anchor hanchor
          · exact Or.inr h
          · exact Or.inl (Option.some.inj h).symm
      rw [sections_edge] at ht
      simp only [triples_group, List.mem_append] at hrest
      simp only [Body.triples, List.mem_cons, List.mem_append]
      cases ho : e.isOptional with
      | true =>
          simp only [ho, if_true, triples_group, Group.triples, List.cons_append, List.mem_append,
            List.mem_cons] at ht
          grind
      | false =>
          simp only [ho, Bool.false_eq_true, if_false, triples_group, Group.triples, Group.triples_append,
            List.mem_append, List.mem_cons] at ht
          grind
  | alternative isSlot inner rest ihInner ih =>
      have hrest := @ih root anchor
      have hinner : t ∈ (inner.inBraces root anchor).triples → t ∈ inner.triples root ∨ anchor = some t :=
        mem_inBraces_of fun _ => ihInner
      rw [sections_alternative] at ht
      simp only [Body.triples, List.mem_append]
      split at ht
      · exact (hrest ht).imp_left Or.inr
      · simp only [triples_group, List.mem_append] at ht hrest
        simp only [Group.unionTriples, List.mem_append] at ht
        grind
  | conjunct own inner rest ihInner ih =>
      have hrest := @ih root anchor
      have hinner : t ∈ (inner.inBraces own (shared root own anchor)).triples →
          t ∈ inner.triples own ∨ anchor = some t := by
        intro h
        refine (mem_inBraces_of (fun _ => ihInner) h).imp_right fun hshared => ?_
        unfold shared at hshared
        split at hshared
        · exact hshared
        · simp at hshared
      rw [sections_conjunct] at ht
      simp only [Body.triples, List.mem_append]
      split at ht
      · exact (hrest ht).imp_left Or.inr
      · simp only [triples_group, List.mem_append] at ht hrest
        simp only [Group.triples, Group.unionTriples, List.append_nil, List.mem_append] at ht
        grind

theorem mem_inBraces (h : ∀ anchor, t ∈ (body.sections root anchor).group.triples) :
    t ∈ (body.inBraces root inherited).triples := by
  rw [inBraces, Group.triples_append]
  exact List.mem_append_right _ (h _)

theorem mem_sections (ht : t ∈ body.triples root) (anchor : Option Triple) :
    t ∈ (body.sections root anchor).group.triples := by
  -- what is left out says nothing, and so has no triples
  have hnonempty : ∀ {g : Group}, t ∈ g.triples → g.isNil = false := by
    intro g hmem
    cases g with
    | nil => simp [Group.triples] at hmem
    | _ => rfl
  induction body generalizing root anchor with
  | nil => simp [Body.triples] at ht
  | leaf predicate term rest ih =>
      simp only [Body.triples, List.mem_cons] at ht
      have hrest := fun h => @ih root h anchor
      simp only [triples_group, List.mem_append] at hrest ⊢
      simp only [sections, Group.triples, List.mem_cons]
      grind
  | edge e below rest ihBelow ih =>
      have hrest := fun h => @ih root h anchor
      have hbelow : t ∈ below.triples e.target → t ∈ (below.belowEdge root e).triples := fun h => ihBelow h _
      rw [sections_edge]
      simp only [triples_group, List.mem_append] at hrest
      simp only [Body.triples, List.mem_cons, List.mem_append] at ht
      cases ho : e.isOptional with
      | true =>
          simp only [if_true, triples_group, Group.triples, List.cons_append, List.mem_append, List.mem_cons]
          grind
      | false =>
          simp only [Bool.false_eq_true, if_false, triples_group, Group.triples, Group.triples_append,
            List.mem_append, List.mem_cons]
          grind
  | alternative isSlot inner rest ihInner ih =>
      have hrest := fun h => @ih root h anchor
      have hinner : t ∈ inner.triples root → t ∈ (inner.inBraces root anchor).triples := fun h =>
        mem_inBraces fun a => ihInner h a
      rw [sections_alternative]
      simp only [Body.triples, List.mem_append] at ht
      split
      · next hnil =>
          refine ht.elim (fun h => ?_) hrest
          simp [hnonempty (hinner h)] at hnil
      · simp only [triples_group, List.mem_append] at hrest ⊢
        simp only [Group.unionTriples, List.mem_append]
        grind
  | conjunct own inner rest ihInner ih =>
      have hrest := fun h => @ih root h anchor
      have hinner : t ∈ inner.triples own → t ∈
        (inner.inBraces own (shared root own anchor)).triples := fun h =>
        mem_inBraces fun a => ihInner h a
      rw [sections_conjunct]
      simp only [Body.triples, List.mem_append] at ht
      split
      · next hnil =>
          refine ht.elim (fun h => ?_) hrest
          simp [hnonempty (hinner h)] at hnil
      · simp only [triples_group, List.mem_append] at hrest ⊢
        simp only [Group.triples, Group.unionTriples, List.append_nil, List.mem_append]
        grind

/-- The sections of a group, none of which has anything empty in braces. -/
structure FilledSections (s : Sections) : Prop where
  leaves : s.leaves.Filled
  plain : s.plain.Filled
  below : s.below.Filled
  conjuncts : s.conjuncts.Filled
  alternatives : Group.AllFilled s.alternatives
  optionals : s.optionals.Filled

theorem FilledSections.group {s : Sections} (h : FilledSections s) : s.group.Filled := by
  have hunion : (if s.alternatives.isEmpty then Group.nil else .alternatives s.alternatives .nil).Filled := by
    cases halternatives : s.alternatives with
    | nil => trivial
    | cons g rest => exact ⟨by simp, halternatives ▸ h.alternatives, trivial⟩
  unfold Sections.group
  simp only [Group.filled_append]
  exact ⟨h.leaves, h.plain, h.below, h.conjuncts, hunion, h.optionals⟩

theorem filled_inBraces (h : ∀ anchor, FilledSections (body.sections root anchor))
    (inherited : Option Triple) : (body.inBraces root inherited).Filled := by
  refine Group.filled_append.mpr ⟨?_, (h _).group⟩
  unfold repeatedAnchor
  split
  · split
    · trivial
    · trivial
  · trivial

theorem filledSections (body : Body) (root : String) (anchor : Option Triple) :
    FilledSections (body.sections root anchor) := by
  induction body generalizing root anchor with
  | nil => exact ⟨trivial, trivial, trivial, trivial, trivial, trivial⟩
  | leaf predicate term rest ih =>
      have hrest := ih root anchor
      exact ⟨hrest.leaves, hrest.plain, hrest.below, hrest.conjuncts, hrest.alternatives, hrest.optionals⟩
  | edge e below rest ihBelow ih =>
      have hrest := ih root anchor
      have hbelow : (below.belowEdge root e).Filled := (ihBelow e.target _).group
      rw [sections_edge]
      split
      · exact ⟨hrest.leaves, hrest.plain, hrest.below, hrest.conjuncts, hrest.alternatives,
          ⟨rfl, hbelow, hrest.optionals⟩⟩
      · exact ⟨hrest.leaves, hrest.plain, Group.filled_append.mpr ⟨hbelow, hrest.below⟩, hrest.conjuncts,
          hrest.alternatives, hrest.optionals⟩
  | alternative isSlot inner rest ihInner ih =>
      have hrest := ih root anchor
      rw [sections_alternative]
      split
      · exact hrest
      · next hnil =>
          have hinner : (inner.inBraces root anchor).Filled := filled_inBraces (ihInner root) anchor
          exact ⟨hrest.leaves, hrest.plain, hrest.below, hrest.conjuncts,
            ⟨by simpa using hnil, hinner, hrest.alternatives⟩, hrest.optionals⟩
  | conjunct own inner rest ihInner ih =>
      have hrest := ih root anchor
      rw [sections_conjunct]
      split
      · exact hrest
      · next hnil =>
          have hinner : (inner.inBraces own (shared root own anchor)).Filled :=
            filled_inBraces (ihInner own) _
          exact ⟨hrest.leaves, hrest.plain, hrest.below,
            ⟨by simp, ⟨by simpa using hnil, hinner, trivial⟩, hrest.conjuncts⟩, hrest.alternatives,
              hrest.optionals⟩

end Body

namespace Pattern

variable {p : Pattern}

theorem mem_triples_group {t : Triple} : t ∈ p.group.triples ↔ t ∈ p.body.triples p.root := by
  constructor
  · intro ht
    obtain ht | hanchor := Body.mem_of_sections ht
    · exact ht
    · rw [← @Option.or_none _ (p.body.ownAnchor? p.root)] at hanchor
      obtain ht | hnone := Body.mem_of_anchor hanchor
      · exact ht
      · simp at hnone
  · intro ht
    exact Body.mem_sections ht _

/-- Reading the text of a pattern gives what is to be written for it, in this order and nothing else. -/
theorem text_faithful (h : p.body.Each (Body.naming IsName) p.root) :
    Group.parse? p.text = some p.written ∧
      (∀ t, t ∈ p.written.triples ↔ t ∈ p.body.triples p.root) ∧
      p.written.Filled ∧
      (p.text = "" ↔ p.body.isEmpty = true) := by
  have hfilled : p.group.Filled := (p.body.filledSections p.root _).group
  have hnamed : Group.Named p.group.triples := fun t ht => h.triples (mem_triples_group.mp ht)
  rw [← group_eq_written]
  refine ⟨Group.parse?_text hnamed hfilled, fun t => mem_triples_group, hfilled, ?_⟩
  rw [text, Group.text_eq_empty hnamed hfilled, group, Body.isNil_sections]

/-- A pattern with a leaf, whose alternative has to repeat it, and with a conjunct that says nothing. -/
def sample : Pattern where
  root := "?x0"
  body := .leaf "rdf:type" "ex:Thing" (.edge ⟨⟨"ex:id", false⟩, false, "?x1"⟩ .nil
    (.alternative false (.edge ⟨⟨"ex:whole", true⟩, true, "?x2"⟩ (.leaf "rdf:type" "ex:Thing" .nil) .nil)
      (.conjunct "?x0" .nil .nil)))

theorem text_faithful_sample :
    sample.body.Each (Body.naming IsName) sample.root ∧ Group.parse? sample.text = some sample.written ∧
      (∀ t, t ∈ sample.written.triples ↔ t ∈ sample.body.triples sample.root) ∧ sample.written.Filled := by
  have hnames : sample.body.Each (Body.naming IsName) sample.root := by
    refine ⟨⟨by decide, by decide, by decide⟩, ⟨by decide, by decide, by decide⟩, trivial, ?_, trivial,
      trivial, trivial⟩
    exact ⟨⟨by decide, by decide, by decide⟩, ⟨⟨by decide, by decide, by decide⟩, trivial⟩, trivial⟩
  obtain ⟨hparse, htriples, hfilled, -⟩ := text_faithful hnames
  exact ⟨hnames, hparse, htriples, hfilled⟩

example : sample.text = "?x0 rdf:type ex:Thing . ?x0 ex:id ?x1 . \x7b ?x0 rdf:type ex:Thing . " ++
    "OPTIONAL \x7b ?x2 ex:whole ?x0 . ?x2 rdf:type ex:Thing . \x7d \x7d" := by decide

end Pattern
end EntityGraph
