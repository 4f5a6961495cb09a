import EntityGraph.Proofs.Pattern.Together
import EntityGraph.Proofs.Placement.Trees
import EntityGraph.Proofs.Read.Decoded
import EntityGraph.Proofs.Read.Unfiltered

/-!
# Identifiers are bound

The identifier of an entity is read over a plain edge of the entity itself, unless it is a foreign key.
A related entity may hang at several edges, that of its expansion and those of foreign keys; all of them
have the plain edge to the identifier below them. So every solution that binds the entity, at the root or
at any depth of an expansion, binds its identifier as well.

An identifier that is a foreign key is read over the edge to the related entity, as any other foreign key,
and stands in the slot: other alternatives bind the entity without it.
-/
namespace EntityGraph

open Sparql

/-- The identifier is no foreign key. -/
def EntityType.OwnId (T : EntityType) : Prop :=
  ∀ i, T.property? idName = some i → i.foreignKeyOf = none

/-- The label that is a type: navigation properties lead to their target types, and values have none. -/
def Schema.kinds (schema : Schema) : Naming.Labelling (Option EntityType) where
  related a name := a.bind fun T => (T.property? name).bind fun p => (schema.targetType p).toOption
  value _ _ := none
  foreignKey _ _ _ := rfl

theorem Schema.Accepted.kinds_related {schema : Schema} (hs : schema.Accepted) {T t : EntityType}
    {p : Property} (hT : T ∈ schema.types) (hp : p ∈ T.properties) (ht : schema.targetType p = .ok t) :
    schema.kinds.related (some T) p.name = some t := by
  simp [Schema.kinds, hs.property? hT hp, ht, Except.toOption]

/-- What hangs at an entity has a plain edge to the identifier, if that is no foreign key. -/
def Body.Identified (names : Naming) (kind : Nat → Option EntityType) (v : String) (B : Body) : Prop :=
  ∀ r t var, v = r.var → kind r.number = some t → t.OwnId → names.value? r idName = some var →
    var ∈ B.plainTargets

theorem Body.Identified.covers {names : Naming} {kind : Nat → Option EntityType} {v : String} {B C : Body}
    (hc : B.Covers C) (h : B.Identified names kind v) : C.Identified names kind v :=
  fun r t var heq hkind hown hvar => hc.plain var (h r t var heq hkind hown hvar)

theorem Forest.place_cons_ok {branch : Branch} {below rest : Forest} {position : Position} {names : Naming}
    (h : ((cons branch below rest).place Rule.builtin position names).failure = none) :
    ∃ placement inner after, branch.placement position names = .ok placement ∧
      inner = below.place Rule.builtin placement.position placement.names ∧ inner.failure = none ∧
      after = rest.place Rule.builtin position inner.names ∧ after.failure = none ∧
      (cons branch below rest).place Rule.builtin position names =
        ⟨(placement.route.wrap inner.body).merge after.body, after.names, none⟩ := by
  rw [place_cons] at h ⊢
  cases hplaced : branch.placement position names with
  | error e => simp [hplaced] at h
  | ok placement =>
      simp only [hplaced] at h ⊢
      cases hinner : (below.place Rule.builtin placement.position placement.names).failure with
      | some e => simp [hinner] at h
      | none =>
          simp only [hinner] at h ⊢
          exact ⟨placement, _, _, rfl, rfl, hinner, rfl, h, by rw [h]⟩

namespace Shape

variable {schema : Schema} {T : EntityType} {expand : ExpandTree} {ps : List Property} {shape : Shape}
  {names names' : Naming} {forest : Forest} {position : Position} {kind : Nat → Option EntityType}

theorem forest_value (hs : schema.Accepted) (hT : T ∈ schema.types) {p : Property} (hp : p ∈ T.properties)
    {rest : Shape} (h : (Shape.value p rest).forest schema T = .ok forest) :
    ∃ b others, b.Reads schema T p ∧ rest.forest schema T = .ok others ∧
      forest = .cons (.property b) .nil others := by
  obtain ⟨b, hb, hreads⟩ := hs.ofProperty hT hp
  cases hrest : rest.forest schema T with
  | error e => simp [Shape.forest, hb, hrest, bind, Except.bind] at h
  | ok others =>
      refine ⟨b, others, hreads, rfl, ?_⟩
      simpa [Shape.forest, hb, hrest, bind, Except.bind, pure, Except.pure, eq_comm] using h

theorem forest_navigation (hs : schema.Accepted) (hT : T ∈ schema.types) {p : Property}
    (hp : p ∈ T.properties)
    {t : EntityType} {below rest : Shape} (h :
      (Shape.navigation p t below rest).forest schema T = .ok forest) :
    ∃ b inner others, b.Reads schema T p ∧ below.forest schema t = .ok inner ∧
      rest.forest schema T = .ok others ∧ forest = .cons (.property b) inner others := by
  obtain ⟨b, hb, hreads⟩ := hs.ofProperty hT hp
  cases hbelow : below.forest schema t with
  | error e => simp [Shape.forest, hb, hbelow, bind, Except.bind] at h
  | ok inner =>
      cases hrest : rest.forest schema T with
      | error e => simp [Shape.forest, hb, hbelow, hrest, bind, Except.bind] at h
      | ok others =>
          refine ⟨b, inner, others, hreads, rfl, rfl, ?_⟩
          simpa [Shape.forest, hb, hbelow, hrest, bind, Except.bind, pure, Except.pure, eq_comm] using h

theorem Shows.plain_id (hs : schema.Accepted) (h : Shows schema expand ps shape) (hT : T ∈ schema.types)
    (hps : ∀ p ∈ ps, p ∈ T.properties) (hforest : shape.forest schema T = .ok forest)
    (hplaced : (forest.place Rule.builtin position names).failure = none) (hown : T.OwnId)
    (hid : ∃ i ∈ ps, i.name = idName) :
    ∃ v, (forest.place Rule.builtin position names).names.value? position.place idName = some v ∧
      v ∈ (forest.place Rule.builtin position names).body.plainTargets := by
  obtain ⟨i, hi, hname⟩ := hid
  obtain ⟨i', -, -, hlookup, helementary, hmandatory⟩ := hs.id hT
  obtain rfl : i = i' := by
    have heq := hs.property? hT (hps i hi)
    rw [hname, hlookup] at heq
    exact (Option.some.inj heq).symm
  induction h generalizing forest names with
  | nil => simp at hi
  | @value expand p ps rest he hrest ih =>
      obtain ⟨hp, hps⟩ := List.forall_mem_cons.mp hps
      obtain ⟨b, others, hreads, hothers, rfl⟩ := forest_value hs hT hp hforest
      obtain ⟨placement, _, _, hplacement, rfl, -, rfl, hafter, hbody⟩ := Forest.place_cons_ok hplaced
      rw [hbody]
      obtain rfl | hi := List.mem_cons.mp hi
      · have hc : b.isComplex = false := by rw [hreads.isComplex, he]; rfl
        have hk : b.foreignKey = none := by
          obtain ⟨-, hk⟩ | ⟨_, _, _, _, _, _, _, -, hf, -⟩ := hreads.foreignKey
          · exact hk
          · simp [hown i hlookup] at hf
        rw [Branch.placement_value hc hk] at hplacement
        obtain rfl := Except.ok.inj hplacement
        have hbid : b.name = idName := hreads.name.trans hname
        have hv := (Naming.keeps_value names position.place b.name).2
        refine ⟨(names.value position.place b.name).1, Forest.place_keeps.value (hbid ▸ hv), ?_⟩
        refine (Body.covers_merge_left _ _).plain _ ?_
        simp [PropertyBranch.isId, hbid, hreads.isMandatory, hmandatory, Route.wrap, Step.wrap,
          Body.plainTargets]
      · obtain ⟨v, hv, hplain⟩ := ih hps hothers hafter hi
        exact ⟨v, hv, (Body.covers_merge_right _ _).plain v hplain⟩
  | skip hne _ _ ih =>
      obtain rfl | hi := List.mem_cons.mp hi
      · simp [hne] at helementary
      · exact ih (List.forall_mem_cons.mp hps).2 hforest hplaced hi
  | navigation he _ _ _ _ _ ih =>
      obtain ⟨hp, hps⟩ := List.forall_mem_cons.mp hps
      obtain ⟨b, inner, others, -, -, hothers, rfl⟩ := forest_navigation hs hT hp hforest
      obtain ⟨placement, _, _, -, rfl, -, rfl, hafter, hbody⟩ := Forest.place_cons_ok hplaced
      rw [hbody]
      obtain rfl | hi := List.mem_cons.mp hi
      · simp [he] at helementary
      · obtain ⟨v, hv, hplain⟩ := ih hps hothers hafter hi
        exact ⟨v, hv, (Body.covers_merge_right _ _).plain v hplain⟩

theorem identified_value (hlabel : names'.Labelled schema.kinds kind) {q : Place} {name v : String}
    (hv : names'.value? q name = some v) : Body.Identified names' kind v .nil := by
  intro r t var heq hkind
  obtain ⟨k, rfl, -, -, hnone⟩ := hlabel.value hv
  obtain rfl : k = r.number := variableName_injective heq
  simp [hnone, Schema.kinds] at hkind

/-- Below the edge of a foreign key hangs the identifier of the related entity; below other values nothing
does. -/
theorem identified_placement (hlabel : names'.Labelled schema.kinds kind) {b : PropertyBranch}
    (hc : b.isComplex = false) {placement : Placement}
    (hplaced : (Branch.property b).placement position names = .ok placement)
    (hgrows : placement.names.Grows names') :
    (placement.route.wrap .nil).EachBelow (Body.Identified names' kind) := by
  cases hk : b.foreignKey with
  | none =>
      rw [Branch.placement_value hc hk] at hplaced
      obtain rfl := Except.ok.inj hplaced
      have hedge := identified_value hlabel (hgrows.value (Naming.keeps_value names position.place b.name).2)
      cases !b.isId && b.isMandatory with
      | true => exact ⟨⟨⟨hedge, trivial⟩, trivial⟩, trivial⟩
      | false => exact ⟨⟨hedge, trivial⟩, trivial⟩
  | some key =>
      rw [Branch.placement_foreignKey hc hk rfl rfl] at hplaced
      obtain rfl := Except.ok.inj hplaced
      have hlink := (Naming.keeps_link _ position.place b.name _).grows.trans hgrows
      have hid := hlink.value (Naming.keeps_value (names.relatedPlace position.place key.navigation).2
        (names.relatedPlace position.place key.navigation).1 idName).2
      refine ⟨⟨⟨?_, ⟨identified_value hlabel hid, trivial⟩, trivial⟩, trivial⟩, trivial⟩
      -- the plain edge below the one to the related entity leads to its identifier
      intro r t var heq _ _ hvar
      obtain rfl : (names.relatedPlace position.place key.navigation).1 = r :=
        congrArg Place.mk (variableName_injective heq)
      obtain rfl := Option.some.inj (hid.symm.trans hvar)
      exact List.mem_singleton_self _

/-- Whatever hangs at an entity, at any depth of the pattern of a shape, has a plain edge to its
identifier. -/
theorem Shows.identified (hs : schema.Accepted) (h : Shows schema expand ps shape) (hT : T ∈ schema.types)
    (hps : ∀ p ∈ ps, p ∈ T.properties) (hforest : shape.forest schema T = .ok forest)
    (hplaced : (forest.place Rule.builtin position names).failure = none)
    (hgrows : (forest.place Rule.builtin position names).names.Grows names')
    (hlabel : names'.Labelled schema.kinds kind) (hkind : kind position.place.number = some T) :
    (forest.place Rule.builtin position names).body.EachBelow (Body.Identified names' kind) := by
  induction h generalizing T forest position names with
  | nil =>
      obtain rfl : Forest.nil = forest := by simpa [Shape.forest] using hforest
      trivial
  | @value expand p ps rest he hrest ih =>
      obtain ⟨hp, hps⟩ := List.forall_mem_cons.mp hps
      obtain ⟨b, others, hreads, hothers, rfl⟩ := forest_value hs hT hp hforest
      obtain ⟨placement, _, _, hplacement, rfl, -, rfl, hafter, hbody⟩ := Forest.place_cons_ok hplaced
      rw [hbody] at hgrows ⊢
      have hnames := (@Forest.place_keeps others position placement.names).grows.trans hgrows
      have hc : b.isComplex = false := by rw [hreads.isComplex, he]; rfl
      exact .merge Body.Identified.covers (identified_placement hlabel hc hplacement hnames)
        (ih hT hps hothers hafter hgrows hkind)
  | skip _ _ _ ih => exact ih hT (List.forall_mem_cons.mp hps).2 hforest hplaced hgrows hkind
  | @navigation expand sub p t ps below rest he hc ht hbelow hrest ihBelow ih =>
      obtain ⟨hp, hps⟩ := List.forall_mem_cons.mp hps
      obtain ⟨t', ht', htarget⟩ := hs.targetType hT hp he
      obtain rfl := Except.ok.inj (ht.symm.trans htarget)
      obtain ⟨b, inner, others, hreads, hinner, hothers, rfl⟩ := forest_navigation hs hT hp hforest
      obtain ⟨placement, _, _, hplacement, rfl, hfailure, rfl, hafter, hbody⟩ := Forest.place_cons_ok hplaced
      rw [hbody] at hgrows ⊢
      refine .merge Body.Identified.covers ?_ (ih hT hps hothers hafter hgrows hkind)
      have hc : b.isComplex = true := by rw [hreads.isComplex, he]; rfl
      rw [Branch.placement_related hc] at hplacement
      obtain rfl := Except.ok.inj hplacement
      have hinside := (@Forest.place_keeps others position _).grows.trans hgrows
      have hr := ((@Forest.place_keeps inner _ _).grows.trans hinside).related
        (Naming.keeps_relatedPlace names position.place b.name).2
      have htype : kind (names.relatedPlace position.place b.name).1.number = some t := by
        rw [(hlabel.related hr).2.2, hkind, hreads.name, hs.kinds_related hT hp ht]
      have hedge : Body.Identified names' kind (names.relatedPlace position.place b.name).1.var
          (inner.place Rule.builtin { position with place := (names.relatedPlace position.place b.name).1 }
            (names.relatedPlace position.place b.name).2).body := by
        intro r t'' var heq hkind' hown hvar
        obtain rfl : (names.relatedPlace position.place b.name).1 = r :=
          congrArg Place.mk (variableName_injective heq)
        obtain rfl := Option.some.inj (htype.symm.trans hkind')
        obtain ⟨i, hi, hname, -⟩ := hs.id ht'
        obtain ⟨v, hv, hplain⟩ := hbelow.plain_id hs ht' (fun _ => id) hinner hfailure hown ⟨i, hi, hname⟩
        obtain rfl := Option.some.inj ((hinside.value hv).symm.trans hvar)
        exact hplain
      have hbelow := ihBelow ht' (fun _ => id) hinner hfailure hinside htype
      cases b.isSingle with
      | true => exact ⟨⟨⟨hedge, hbelow⟩, trivial⟩, trivial⟩
      | false => exact ⟨⟨⟨hedge, hbelow⟩, trivial⟩, trivial⟩

end Shape

/-- The entity that a path of navigation properties leads to. -/
def Naming.follow (names : Naming) : Place → List String → Option Place
  | q, [] => some q
  | q, name :: path => (names.related? q name).bind fun r => names.follow r path

/-- A path of expanded navigation properties, and the type it leads to. -/
inductive ExpandTree.Expands (schema : Schema) : EntityType → ExpandTree → List String → EntityType → Prop
  | here {T : EntityType} {expand : ExpandTree} : Expands schema T expand [] T
  | navigation {T t t' : EntityType} {expand sub : ExpandTree} {p : Property} {path : List String}
      (hp : p ∈ T.properties) (he : p.isElementary = false) (hc : expand.child? p.name = some sub)
      (ht : schema.targetType p = .ok t) (h : Expands schema t sub path t') :
      Expands schema T expand (p.name :: path) t'

namespace Shape

variable {schema : Schema} {T : EntityType} {expand : ExpandTree} {ps : List Property} {shape : Shape}
  {names : Naming} {forest : Forest} {position : Position} {kind : Nat → Option EntityType}

theorem Shows.mentions (hs : schema.Accepted) (h : Shows schema expand ps shape) (hT : T ∈ schema.types)
    (hps : ∀ p ∈ ps, p ∈ T.properties) (hforest : shape.forest schema T = .ok forest)
    (hnamed : shape.Named names position.place) {p : Property} (hp : p ∈ ps) (he : p.isElementary = false)
    {sub : ExpandTree} (hc : expand.child? p.name = some sub) {t : EntityType}
    (ht : schema.targetType p = .ok t) :
    ∃ below inner r, Shows schema sub t.properties below ∧ below.forest schema t = .ok inner ∧
      names.related? position.place p.name = some r ∧ below.Named names r ∧
      forest.Mentions names position r.var ∧
      ∀ v, inner.Mentions names { position with place := r } v → forest.Mentions names position v := by
  induction h generalizing forest with
  | nil => simp at hp
  | value he' _ ih =>
      obtain ⟨hp', hps⟩ := List.forall_mem_cons.mp hps
      obtain ⟨b, others, -, hothers, rfl⟩ := forest_value hs hT hp' hforest
      obtain rfl | hp := List.mem_cons.mp hp
      · simp [he] at he'
      · obtain ⟨below, inner, r, hbelow, hinner, hr, hn, hmention, hmentions⟩ := ih hps hothers hnamed.2 hp hc
        exact ⟨below, inner, r, hbelow, hinner, hr, hn, .rest hmention, fun v hv => .rest (hmentions v hv)⟩
  | skip _ hnone _ ih =>
      obtain rfl | hp := List.mem_cons.mp hp
      · simp [hc] at hnone
      · exact ih (List.forall_mem_cons.mp hps).2 hforest hnamed hp hc
  | navigation he' hc' ht' hbelow _ _ ih =>
      obtain ⟨hp', hps⟩ := List.forall_mem_cons.mp hps
      obtain ⟨b, inner, others, hreads, hinner, hothers, rfl⟩ := forest_navigation hs hT hp' hforest
      obtain ⟨⟨r, hr, -, hn⟩, hnamed⟩ := hnamed
      obtain rfl | hp := List.mem_cons.mp hp
      · obtain rfl := Option.some.inj (hc.symm.trans hc')
        obtain rfl := Except.ok.inj (ht.symm.trans ht')
        have hcomplex : b.isComplex = true := by rw [hreads.isComplex, he]; rfl
        have hr' := hreads.name.symm ▸ hr
        exact ⟨_, inner, r, hbelow, hinner, hr, hn, .related hcomplex hr',
          fun v hv => .belowRelated hcomplex hr' hv⟩
      · obtain ⟨below, inner, r, hbelow, hinner, hr, hn, hmention, hmentions⟩ := ih hps hothers hnamed hp hc
        exact ⟨below, inner, r, hbelow, hinner, hr, hn, .rest hmention, fun v hv => .rest (hmentions v hv)⟩

/-- Every path of expanded navigation properties leads to an entity of the type it leads to, which has an
identifier. -/
theorem Shows.follow (hs : schema.Accepted) {path : List String} {t : EntityType}
    (h : expand.Expands schema T path t) (hT : T ∈ schema.types)
    (hshows : Shows schema expand T.properties shape)
    (hforest : shape.forest schema T = .ok forest) (hnamed : shape.Named names position.place)
    (hlabel : names.Labelled schema.kinds kind) (hkind : kind position.place.number = some T) :
    ∃ r, names.follow position.place path = some r ∧ kind r.number = some t ∧
      (∃ v, names.value? r idName = some v) ∧
      (r = position.place ∨ forest.Mentions names position r.var) := by
  induction h generalizing shape forest position with
  | here => exact ⟨_, rfl, hkind, hshows.named_id hs hT hnamed, Or.inl rfl⟩
  | @navigation T t _ _ _ p _ hp he hc ht _ ih =>
      obtain ⟨below, inner, r, hbelow, hinner, hr, hn, hmention, hmentions⟩ :=
        hshows.mentions hs hT (fun _ => id) hforest hnamed hp he hc ht
      obtain ⟨t', ht', htarget⟩ := hs.targetType hT hp he
      obtain rfl := Except.ok.inj (ht.symm.trans htarget)
      have htype : kind r.number = some t := by
        rw [(hlabel.related hr).2.2, hkind, hs.kinds_related hT hp ht]
      obtain ⟨r', hfollow, hkind', hid, hmem⟩ :=
        @ih below inner ⟨r, position.scope⟩ ht' hbelow hinner hn htype
      refine ⟨r', by simp [Naming.follow, hr, hfollow], hkind', hid, Or.inr ?_⟩
      obtain rfl | hmem := hmem
      · exact hmention
      · exact hmentions _ hmem

end Shape

/-- The leaves lead to fixed terms, edges are steps in the trees of the names, and there are no conjuncts. -/
def Body.walks (names : Naming) : Condition where
  leaf _ _ term := isVariable term = false
  edge := (steps names).edge
  conjunct _ _ := False

namespace ExpandTree

variable {schema : Schema} {T : EntityType} {expand : ExpandTree} {pattern : Pattern} {position : Position}
  {names names' : Naming}

theorem compile_steps (hs : schema.Accepted) (hT : T ∈ schema.types)
    (h : expand.compile schema Rule.builtin T position names = .ok (pattern, names')) :
    ∃ body, body.Each (Body.steps names') position.place.var ∧
      pattern = ⟨position.place.var, (classBody T).merge body⟩ := by
  obtain ⟨shape, forest, hshape, hforest, -, rfl, rfl⟩ := compile_ok h
  obtain ⟨forest', hforest', hproperties, hpruned⟩ :=
    (Shape.shows_ofExpand hs hT hshape).pruned hs hT fun _ => id
  obtain rfl := Except.ok.inj (hforest.symm.trans hforest')
  exact ⟨_, Forest.place_steps hproperties hpruned (.refl _), rfl⟩

theorem compile_walks (hs : schema.Accepted) (hT : T ∈ schema.types)
    (h : expand.compile schema Rule.builtin T position names = .ok (pattern, names')) :
    pattern.body.Each (Body.walks names') pattern.root := by
  obtain ⟨body, hsteps, rfl⟩ := compile_steps hs hT h
  refine .merge ?_ (hsteps.mono (fun _ _ _ => False.elim) (fun _ _ => id) fun _ _ => id)
  unfold classBody
  split
  · next c hc => exact ⟨hs.rdfClass hT hc, trivial⟩
  · trivial

section Start

variable (hs : schema.Accepted) (hT : T ∈ schema.types)
  (h : expand.compile schema Rule.builtin T Reader.startingPosition.1 Reader.startingPosition.2 =
    .ok (pattern, names))

include h

theorem compile_labelled {α : Type} (scheme : Naming.Labelling α) (a : α) :
    ∃ label, names.Labelled scheme label ∧ label Reader.startingPosition.1.place.number = a := by
  obtain ⟨shape, forest, -, -, -, rfl, -⟩ := compile_ok h
  have hstart : Reader.startingPosition.2.Labelled scheme fun _ => a :=
    ⟨fun hr => by simp [Reader.startingPosition, Naming.related?, Naming.rootScope, Naming.newPlace] at hr,
      fun hv => by simp [Reader.startingPosition, Naming.value?, Naming.rootScope, Naming.newPlace] at hv⟩
  have hroot : Reader.startingPosition.1.place.number < Reader.startingPosition.2.next := Nat.zero_lt_one
  obtain ⟨label, hlabels⟩ := forest.place_labelled hstart hroot
    fun scope name found hfound => by
      obtain ⟨scope', hdefined⟩ := Naming.defined_of_resolve hfound
      simp [Reader.startingPosition, Naming.defined?, Naming.rootScope, Naming.newPlace] at hdefined
  exact ⟨label, hlabels.labelled, hlabels.same _ hroot⟩

theorem compile_kinds : ∃ kind, names.Labelled schema.kinds kind ∧
    kind Reader.startingPosition.1.place.number = some T := compile_labelled h schema.kinds (some T)

include hs hT

theorem compile_plain_id (hown : T.OwnId) :
    ∃ v, names.value? Reader.startingPosition.1.place idName = some v ∧ v ∈ pattern.body.plainTargets := by
  obtain ⟨shape, forest, hshape, hforest, hplaced, rfl, rfl⟩ := compile_ok h
  have hshows := Shape.shows_ofExpand hs hT hshape
  obtain ⟨i, hi, hname, -⟩ := hs.id hT
  obtain ⟨v, hv, hplain⟩ := hshows.plain_id hs hT (fun _ => id) hforest hplaced hown ⟨i, hi, hname⟩
  exact ⟨v, hv, (Body.covers_merge_right _ _).plain v hplain⟩

theorem compile_rootedAt {kind : Nat → Option EntityType} (hlabel : names.Labelled schema.kinds kind)
    (hkind : kind Reader.startingPosition.1.place.number = some T) {v : String} :
    ∀ B ∈ pattern.rootedAt v, B.Identified names kind v := by
  have hplain_id := compile_plain_id hs hT h
  obtain ⟨shape, forest, hshape, hforest, hplaced, rfl, rfl⟩ := compile_ok h
  have hshows := Shape.shows_ofExpand hs hT hshape
  intro B hB
  obtain hB | hB := List.mem_append.mp hB
  · split at hB
    · next hroot =>
        obtain rfl := List.mem_singleton.mp hB
        intro r t var heq htype hown hvar
        obtain rfl : Reader.startingPosition.1.place = r :=
          congrArg Place.mk (variableName_injective (hroot.trans heq))
        obtain rfl := Option.some.inj (hkind.symm.trans htype)
        obtain ⟨v', hv', hmem⟩ := hplain_id hown
        obtain rfl := Option.some.inj (hv'.symm.trans hvar)
        exact hmem
    · simp at hB
  · refine Body.EachBelow.rootedAt ?_ B hB
    refine .merge Body.Identified.covers ?_
      (hshows.identified hs hT (fun _ => id) hforest hplaced (.refl _) hlabel hkind)
    unfold classBody
    split <;> trivial

/-- The root, and every entity that is expanded at any depth, has a variable for its identifier. If the
identifier is no foreign key, all that hangs at the entity has a plain edge to it, so that every solution
that binds the entity binds its identifier. -/
theorem compile_identified {path : List String} {t : EntityType} (hpath : expand.Expands schema T path t) :
    ∃ q v, names.follow Reader.startingPosition.1.place path = some q ∧ names.value? q idName = some v ∧
      pattern.rootedAt q.var ≠ [] ∧
      (t.OwnId → (∀ B ∈ pattern.rootedAt q.var, v ∈ B.plainTargets) ∧
        ∀ data, ∀ μ ∈ pattern.group.solutions data .empty, (μ.get? q.var).isSome → (μ.get? v).isSome) := by
  obtain ⟨kind, hlabel, hkind⟩ := compile_kinds h
  have hrooted := @compile_rootedAt _ _ _ _ _ hs hT h kind hlabel hkind
  have hwalks := compile_walks hs hT h
  obtain ⟨shape, forest, hshape, hforest, hplaced, rfl, rfl⟩ := compile_ok h
  have hshows := Shape.shows_ofExpand hs hT hshape
  have hnamed := hshows.named hs hT (fun _ => id) hforest hplaced
  obtain ⟨q, hfollow, htype, ⟨v, hv⟩, hmem⟩ :=
    Shape.Shows.follow hs hpath hT hshows hforest hnamed hlabel hkind
  refine ⟨q, v, hfollow, hv, ?_, fun hown => ?_⟩
  · obtain rfl | hmem := hmem
    · simp [Pattern.rootedAt]
    · have htargets := Forest.place_targets hplaced (.refl _) hmem
      exact List.append_ne_nil_of_right_ne_nil _
        (Body.rootedAt_ne_nil (Body.mem_targets_merge_right _ htargets))
  · have hplain := fun B hB => hrooted B hB q t v rfl htype hown hv
    refine ⟨hplain, fun data μ hμ hq => Pattern.isSome_of_rootedAt ?_ ?_ hplain hμ hq⟩
    · obtain ⟨k, rfl, -⟩ := hlabel.value hv
      exact isVariable_variableName k
    · refine hwalks.mono ?_ (fun _ _ _ => trivial) fun _ _ => id
      rintro _ _ _ hterm rfl
      simp [Body.walks, Place.var] at hterm

end Start

/-- The parts of things, expanded below their wholes. -/
theorem compile_identified_sample :
    Sample.schema.Accepted ∧ Sample.thing ∈ Sample.schema.types ∧ Sample.thing.OwnId ∧
    ∃ pattern names, ExpandTree.compile Sample.schema Rule.builtin Sample.thing
        (.cons "Whole" (.cons "Parts" .nil .nil) .nil) Reader.startingPosition.1 Reader.startingPosition.2 =
          .ok (pattern, names) ∧
      Expands Sample.schema Sample.thing (.cons "Whole" (.cons "Parts" .nil .nil) .nil) ["Whole", "Parts"]
        Sample.thing ∧
      ∃ q v, names.follow Reader.startingPosition.1.place ["Whole", "Parts"] = some q ∧
        names.value? q idName = some v ∧ pattern.rootedAt q.var ≠ [] ∧
        (∀ B ∈ pattern.rootedAt q.var, v ∈ B.plainTargets) ∧
        ∀ data, ∀ μ ∈ pattern.group.solutions data .empty, (μ.get? q.var).isSome → (μ.get? v).isSome := by
  have hT : Sample.thing ∈ Sample.schema.types := List.mem_singleton_self _
  have hown : Sample.thing.OwnId := Sample.ownIds _ hT
  have hpath : Expands Sample.schema Sample.thing (.cons "Whole" (.cons "Parts" .nil .nil) .nil)
      ["Whole", "Parts"] Sample.thing := by
    refine .navigation (p := Sample.thing.properties.get ⟨2, by decide⟩) (by decide) rfl rfl rfl ?_
    exact .navigation (p := Sample.thing.properties.get ⟨4, by decide⟩) (by decide) rfl rfl rfl .here
  obtain ⟨pattern, names, h⟩ : ∃ pattern names, ExpandTree.compile Sample.schema Rule.builtin Sample.thing
      (.cons "Whole" (.cons "Parts" .nil .nil) .nil) Reader.startingPosition.1 Reader.startingPosition.2 =
        .ok (pattern, names) := exists_compile Sample.accepted hT rfl _ _
  obtain ⟨q, v, hfollow, hv, hne, hbound⟩ := compile_identified Sample.accepted hT h hpath
  exact ⟨Sample.accepted, hT, hown, pattern, names, h, hpath, q, v, hfollow, hv, hne, hbound hown⟩

end ExpandTree

namespace Sample

def profile : EntityType where
  name := "Profile"
  rdfClass := some "ex:Profile"
  properties := [
    { name := "Id", target := "Edm.Int32", predicate := "ex:id", foreignKeyOf := some "Owner" },
    { name := "Owner", target := "Thing", predicate := "ex:owner" },
    { name := "Notes", target := "Thing", predicate := "ex:note", cardinality := .many }]

def profiles : Schema where
  prefixes := [("ex", "http://example.org/"), ("rdf", Schema.rdfNamespace)]
  types := [thing, profile]
  sets := [("Profiles", "Profile")]

def profileData : Dataset where
  statements := [
    ⟨.iri "ex:profile", .iri "rdf:type", .iri "ex:Profile"⟩,
    ⟨.iri "ex:profile", .iri "ex:owner", .iri "ex:owner1"⟩,
    ⟨.iri "ex:owner1", .iri "ex:id", .ofNumeral "1"⟩,
    ⟨.iri "ex:profile", .iri "ex:note", .iri "ex:note2"⟩,
    ⟨.iri "ex:note2", .iri "ex:id", .ofNumeral "2"⟩]
  resolve := .iri

end Sample

/-- The identifier of a profile has no plain edge, and the solutions that bind the notes of a profile do
not bind the identifier. -/
theorem ExpandTree.compile_unidentified :
    Sample.profiles.Accepted ∧ Sample.profile ∈ Sample.profiles.types ∧ ∃ pattern names v,
      ExpandTree.compile Sample.profiles Rule.builtin Sample.profile (.cons "Notes" .nil .nil)
        Reader.startingPosition.1 Reader.startingPosition.2 = .ok (pattern, names) ∧
      names.value? Reader.startingPosition.1.place idName = some v ∧ v ∉ pattern.body.plainTargets ∧
      ∃ μ ∈ pattern.group.solutions Sample.profileData .empty,
        (μ.get? Reader.startingPosition.1.place.var).isSome ∧ μ.get? v = none := by
  have haccepted : Sample.profiles.Accepted :=
    ⟨[("ex", "http://example.org/")], [Sample.thing, Sample.profile], [("Profiles", "Profile")],
      by decide, by decide +kernel⟩
  exact ⟨haccepted, by decide, _, _, _, rfl, rfl, by decide, by decide⟩

end EntityGraph
