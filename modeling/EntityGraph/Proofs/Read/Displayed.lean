import EntityGraph.Proofs.Pattern.Seats
import EntityGraph.Proofs.Read.Shared

/-!
# What the pattern of a read consists of

The pattern of an entity is the merge of one part for each property, in the order of the schema. Values are
edges at the entity or in the slot, and a foreign key is the edge to the related entity with the identifier
below it. What is read of related entities hangs below an edge in the slot if there is one of them at most,
and else in an alternative of its own. Which variables are used can be looked up in the names when all of
them are made up.

So the edges at an entity itself lead to its values, the slot leads to values and to single related entities,
and the alternatives beside it are the expanded collections in the order of the schema.
-/
namespace EntityGraph

/-- The pattern shows properties of an entity of a type, and of the related entities what the tree says. -/
inductive Body.Displays (schema : Schema) (names : Naming) :
    ExpandTree → EntityType → Place → List Property → Body → Prop
  | nil {expand : ExpandTree} {T : EntityType} {q : Place} : Displays schema names expand T q [] .nil
  | value {expand : ExpandTree} {T : EntityType} {q : Place} {p : Property} {ps : List Property} {body : Body}
      {e : Edge} (hp : p ∈ T.properties) (he : p.isElementary = true)
      (hv : names.value? q p.name = some e.target) (h : Displays schema names expand T q ps body) :
      Displays schema names expand T q (p :: ps) ((Body.edge e .nil .nil).merge body)
  | slotValue {expand : ExpandTree} {T : EntityType} {q : Place} {p : Property}
      {ps : List Property} {body : Body}
      {e : Edge} (hp : p ∈ T.properties) (he : p.isElementary = true)
      (hv : names.value? q p.name = some e.target) (h : Displays schema names expand T q ps body) :
      Displays schema names expand T q (p :: ps) ((Body.alternative true (.edge e .nil .nil) .nil).merge body)
  | foreignKey {expand : ExpandTree} {T t : EntityType} {q r : Place} {p n : Property} {ps : List Property}
      {body : Body} {hop : Hop} {isOptional : Bool} {id : Edge} (hp : p.isElementary = true)
      (hn : n ∈ T.properties) (he : n.isElementary = false) (hsingle : n.isSingle = true)
      (ht : schema.targetType n = .ok t) (hh : schema.hop n = .ok hop) (hr : names.related? q n.name = some r)
      (hv : names.value? r idName = some id.target) (h : Displays schema names expand T q ps body) :
      Displays schema names expand T q (p :: ps) ((Body.alternative true
        (.edge ⟨hop, isOptional, r.var⟩ (.edge id .nil .nil) .nil) .nil).merge body)
  | skip {expand : ExpandTree} {T : EntityType} {q : Place} {p : Property} {ps : List Property} {body : Body}
      (he : p.isElementary = false) (hc : expand.child? p.name = none)
      (h : Displays schema names expand T q ps body) : Displays schema names expand T q (p :: ps) body
  | navigation {expand sub : ExpandTree} {T t : EntityType} {q r : Place} {p : Property} {ps : List Property}
      {inner body : Body} {hop : Hop} (hp : p ∈ T.properties) (he : p.isElementary = false)
      (hc : expand.child? p.name = some sub) (ht : schema.targetType p = .ok t) (hh : schema.hop p = .ok hop)
      (hr : names.related? q p.name = some r) (hinner : Displays schema names sub t r t.properties inner)
      (h : Displays schema names expand T q ps body) :
      Displays schema names expand T q (p :: ps) ((Body.alternative p.isSingle
        (.edge ⟨hop, !(p.isSingle && p.isMandatory), r.var⟩ inner .nil) .nil).merge body)

theorem Shape.Shows.displays {schema : Schema} {T : EntityType} {expand : ExpandTree} {ps : List Property}
    {shape : Shape} {forest : Forest} {names names' : Naming} {position : Position} (hs : schema.Accepted)
    (h : Shows schema expand ps shape) (hT : T ∈ schema.types) (hps : ∀ p ∈ ps, p ∈ T.properties)
    (hforest : shape.forest schema T = .ok forest)
    (hplaced : (forest.place Rule.builtin position names).failure = none)
    (hgrows : (forest.place Rule.builtin position names).names.Grows names') :
    (forest.place Rule.builtin position names).body.Displays schema names' expand T position.place ps := by
  induction h generalizing T forest position names with
  | nil =>
      obtain rfl : Forest.nil = forest := by simpa [Shape.forest] using hforest
      exact .nil
  | @value expand p ps rest he _ ih =>
      obtain ⟨hp, hps⟩ := List.forall_mem_cons.mp hps
      obtain ⟨b, others, hreads, hothers, rfl⟩ := forest_value hs hT hp hforest
      obtain ⟨placement, _, _, hplacement, rfl, -, rfl, hafter, hbody⟩ := Forest.place_cons_ok hplaced
      rw [hbody] at hgrows ⊢
      have hrest := ih hT hps hothers hafter hgrows
      have hnames := Forest.place_keeps.grows.trans hgrows
      have hc : b.isComplex = false := by rw [hreads.isComplex, he]; rfl
      obtain ⟨-, hk⟩ | ⟨n, hn, t, -, i, -, hop, -, -, hcomplex, hsingle, ht, hh, -, hk⟩ := hreads.foreignKey
      · rw [Branch.placement_value hc hk] at hplacement
        obtain rfl := Except.ok.inj hplacement
        have hv := hnames.value (Naming.keeps_value names position.place b.name).2
        rw [hreads.name] at hv hgrows hafter hrest ⊢
        cases hslot : !b.isId && b.isMandatory with
        | true =>
            simp only [if_true, List.singleton_append]
            exact .slotValue hp he hv hrest
        | false =>
            simp only [Bool.false_eq_true, if_false, List.nil_append]
            exact .value hp he hv hrest
      · rw [Branch.placement_foreignKey hc hk rfl rfl] at hplacement
        obtain rfl := Except.ok.inj hplacement
        have hlink := (Naming.keeps_link _ position.place b.name _).grows.trans hnames
        obtain ⟨hkeeps, hv⟩ := Naming.keeps_value (names.relatedPlace position.place n.name).2
          (names.relatedPlace position.place n.name).1 idName
        exact .foreignKey he hn hcomplex hsingle ht hh
          (hlink.related (hkeeps.related (Naming.keeps_relatedPlace names position.place n.name).2))
          (hlink.value hv) hrest
  | skip he hc _ ih => exact .skip he hc (ih hT (List.forall_mem_cons.mp hps).2 hforest hplaced hgrows)
  | @navigation expand sub p t ps below rest he hc ht _ _ ihBelow ih =>
      obtain ⟨hp, hps⟩ := List.forall_mem_cons.mp hps
      obtain ⟨t', ht', htarget⟩ := hs.targetType hT hp he
      obtain rfl := Except.ok.inj (ht.symm.trans htarget)
      obtain ⟨b, inner, others, hreads, hinner, hothers, rfl⟩ := forest_navigation hs hT hp hforest
      obtain ⟨placement, _, _, hplacement, rfl, hfailure, rfl, hafter, hbody⟩ := Forest.place_cons_ok hplaced
      rw [hbody] at hgrows ⊢
      have hrest := ih hT hps hothers hafter hgrows
      have hinside := Forest.place_keeps.grows.trans hgrows
      have hcomplex : b.isComplex = true := by rw [hreads.isComplex, he]; rfl
      rw [Branch.placement_related hcomplex, hreads.name, hreads.isSingle, hreads.isMandatory] at hplacement
      obtain rfl := Except.ok.inj hplacement
      have hr := (Forest.place_keeps.grows.trans hinside).related
        (Naming.keeps_relatedPlace names position.place p.name).2
      have hbelow := ihBelow ht' (fun _ => id) hinner hfailure hinside
      have hdisplays := Body.Displays.navigation hp he hc ht (hreads.relatedHop he) hr hbelow hrest
      cases hsingle : p.isSingle with
      | true => simpa [hsingle, Route.wrap, Step.wrap] using hdisplays
      | false => simpa [hsingle, Route.wrap, Step.wrap] using hdisplays

/-- The properties that are expanded and have many values. -/
def ExpandTree.collections (expand : ExpandTree) (ps : List Property) : List Property :=
  ps.filter fun p => !p.isSingle && (expand.child? p.name).isSome

/-- The alternative is the optional edge of an expanded navigation property, with what is shown of the related
entity below it. -/
def Body.DisplaysCollection (schema : Schema) (names : Naming) (expand : ExpandTree) (q : Place)
    (n : Property) (A : Body) : Prop :=
  ∃ hop r t sub below, schema.hop n = .ok hop ∧ schema.targetType n = .ok t ∧
    expand.child? n.name = some sub ∧
    names.related? q n.name = some r ∧ below.Displays schema names sub t r t.properties ∧
    A = .edge ⟨hop, true, r.var⟩ below .nil

namespace Body.Displays

variable {schema : Schema} {T : EntityType} {names : Naming} {expand : ExpandTree} {q : Place} {p : Property}
  {ps : List Property} {B : Body} {e : Edge}

theorem neat (h : B.Displays schema names expand T q ps) : B.Neat := by
  induction h with
  | nil => exact neat_nil
  | value _ _ _ _ ih => exact (neat_nil.edge _).merge ih
  | slotValue _ _ _ _ ih => exact ((neat_nil.edge _).alternative true).merge ih
  | foreignKey _ _ _ _ _ _ _ _ _ ih => exact (((neat_nil.edge _).edge _).alternative true).merge ih
  | skip _ _ _ ih => exact ih
  | navigation _ _ _ _ _ _ _ _ ihInner ih => exact ((ihInner.edge _).alternative _).merge ih

theorem collections (h : B.Displays schema names expand T q ps) :
    List.Forall₂ (DisplaysCollection schema names expand q) (expand.collections ps) B.collections := by
  have hsingle : ∀ {p : Property}, p.isElementary = true → p.isSingle = true :=
    fun he => by simp [Property.isSingle, he]
  induction h with
  | nil => exact .nil
  | value _ he _ _ ih =>
      rw [collections_merge]
      simpa [ExpandTree.collections, Body.collections, hsingle he] using ih
  | slotValue _ he _ _ ih =>
      rw [collections_merge]
      simpa [ExpandTree.collections, Body.collections, hsingle he] using ih
  | foreignKey he _ _ _ _ _ _ _ _ ih =>
      rw [collections_merge]
      simpa [ExpandTree.collections, Body.collections, hsingle he] using ih
  | skip _ hc _ ih => simpa [ExpandTree.collections, hc] using ih
  | @navigation expand sub T t q r p ps inner body hop _ _ hc ht hh hr hinner _ _ ih =>
      rw [collections_merge]
      cases hmany : p.isSingle with
      | true => simpa [ExpandTree.collections, Body.collections, hmany] using ih
      | false =>
          simp only [ExpandTree.collections, List.filter_cons, hmany, hc, Option.isSome_some]
          exact .cons ⟨hop, r, t, sub, inner, hh, ht, hc, hr, hinner, rfl⟩ ih

theorem uncons (h : B.Displays schema names expand T q (p :: ps)) :
    ∃ H D : Body, B = H.merge D ∧ D.Displays schema names expand T q ps ∧
      ∀ e : Edge, (∀ r, names.related? q p.name = some r → e.target ≠ r.var) →
        (H.slot.behind e).tagged = [] := by
  cases h with
  | value _ _ _ hrest => exact ⟨_, _, rfl, hrest, fun _ _ => rfl⟩
  | slotValue _ _ _ hrest =>
      refine ⟨_, _, rfl, hrest, fun e _ => ?_⟩
      simp only [Body.slot, if_true, Body.behind]
      split <;> rfl
  | foreignKey _ _ _ _ _ _ _ _ hrest =>
      refine ⟨_, _, rfl, hrest, fun e _ => ?_⟩
      simp only [Body.slot, if_true, Body.behind]
      split <;> rfl
  | skip _ _ hrest => exact ⟨Body.nil, B, (nil_merge hrest.neat).symm, hrest, fun _ _ => rfl⟩
  | navigation _ _ _ _ _ hr _ hrest =>
      refine ⟨_, _, rfl, hrest, fun e hother => ?_⟩
      cases p.isSingle with
      | true =>
          simp only [Body.slot, if_true, Body.behind]
          split
          · next heq => exact absurd (heq ▸ rfl) (hother _ hr)
          · rfl
      | false => rfl

theorem tagged_behind_slot (h : B.Displays schema names expand T q ps)
    (hother : ∀ p ∈ ps, ∀ r, names.related? q p.name = some r → e.target ≠ r.var) :
    (B.slot.behind e).tagged = [] := by
  induction ps generalizing B with
  | nil =>
      cases h
      rfl
  | cons p ps ih =>
      obtain ⟨hhere, hrest⟩ := List.forall_mem_cons.mp hother
      obtain ⟨H, D, rfl, hD, hH⟩ := h.uncons
      rw [behind_slot_merge _ hD.neat, tagged_merge_left _ (ih hD hrest), hH e hhere]

end Body.Displays
end EntityGraph
