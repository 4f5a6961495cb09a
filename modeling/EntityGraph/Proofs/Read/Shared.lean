import EntityGraph.Proofs.Read.Typed

/-!
# Edges that foreign keys and expansions share

A foreign key is read over an edge to the related entity, with the flag of the foreign key, and an expansion
over an edge with the flag of the navigation property. If the flags are the same, these are one edge of the
slot: the identifier that the foreign key copies and all that is read of the related entity hang below it, and
an entity without the related one is only dropped if the navigation property is mandatory.

Schemas are accepted with different flags, and then there are two edges.
-/
namespace EntityGraph

open Sparql

namespace Body

/-- The pattern without its own optional edges. -/
def required : Body → Body
  | nil => nil
  | leaf predicate term rest => leaf predicate term rest.required
  | edge e below rest => if e.isOptional then rest.required else edge e below rest.required
  | alternative isSlot body rest => alternative isSlot body rest.required
  | conjunct own body rest => conjunct own body rest.required

theorem required_parts (B : Body) : B.required.leaves = B.leaves ∧ B.required.edges = B.plains ∧
    B.required.alternatives = B.alternatives ∧ B.required.conjuncts = B.conjuncts := by
  induction B with
  | nil => exact ⟨rfl, rfl, rfl, rfl⟩
  | leaf predicate term rest ih => simpa [required, leaves, edges, plains, alternatives, conjuncts] using ih
  | edge e below rest _ ih =>
      cases h : e.isOptional <;>
        simpa [required, leaves, edges, plains, alternatives, conjuncts, h] using ih
  | alternative isSlot body rest _ ih =>
      simpa [required, leaves, edges, plains, alternatives, conjuncts] using ih
  | conjunct own body rest _ ih => simpa [required, leaves, edges, plains, alternatives, conjuncts] using ih

theorem written_required (B : Body) (root : String) (inherited : Option Triple) :
    B.written root inherited = (B.required.written root inherited).append
      (Group.concat (B.optionals.map fun (e, below) =>
        .optional (.triple (e.triple root) (below.written e.target (some (e.triple root)))) .nil)) := by
  obtain ⟨hleaves, hedges, halternatives, hconjuncts⟩ := B.required_parts
  have hplains : B.required.plains = B.plains := by simp [plains, hedges]
  have hoptionals : B.required.optionals = [] := by simp [optionals, hedges, plains]
  rw [written_eq root inherited B, written_eq root inherited B.required]
  simp only [ownTriples, choices, others, hleaves, hplains, halternatives, hconjuncts, hoptionals]
  simp only [Group.append_assoc]
  rfl

end Body

theorem Sparql.Group.exists_extend_optionals {data : Dataset} {env : Assignment} {groups : List Group}
    (hgroups : ∀ g ∈ groups, ∃ body, g = optional body nil) {found : List Solution} {μ : Solution}
    (hμ : μ ∈ found) : ∃ ρ ∈ (concat groups).extend data env found, μ.Within ρ.get? := by
  induction groups generalizing found μ with
  | nil => exact ⟨μ, hμ, fun _ _ => id⟩
  | cons g rest ih =>
      obtain ⟨⟨body, rfl⟩, hrest⟩ := List.forall_mem_cons.mp hgroups
      -- a solution of this group extends `μ`, or `μ` stays as it is
      obtain ⟨μ', hμ', hwithin⟩ :
          ∃ μ' ∈ leftJoin found (body.extend data env [[]]), μ.Within μ'.get? := by
        by_cases h : ∃ ν ∈ body.extend data env [[]], μ.compatible ν = true
        · obtain ⟨ν, hν, hc⟩ := h
          exact ⟨μ.merge ν, mem_leftJoin.mpr (Or.inl ⟨μ, hμ, ν, hν, hc, rfl⟩),
            fun v t => Solution.get?_merge_left ν⟩
        · push Not at h
          exact ⟨μ, mem_leftJoin.mpr (Or.inr ⟨hμ, fun ν hν => by simpa using h ν hν⟩), fun _ _ => id⟩
      obtain ⟨ρ, hρ, hlater⟩ := ih hrest hμ'
      exact ⟨ρ, hρ, fun v t ht => hlater v t (hwithin v t ht)⟩

theorem Body.exists_extend_required (B : Body) {data : Dataset} {env : Assignment} {root : String}
    {inherited : Option Triple} {found : List Solution} {μ : Solution}
    (hμ : μ ∈ (B.required.written root inherited).extend data env found) :
    ∃ ρ ∈ (B.written root inherited).extend data env found, μ.Within ρ.get? := by
  rw [written_required, Group.extend_append]
  refine Group.exists_extend_optionals (fun g hg => ?_) hμ
  obtain ⟨entry, -, rfl⟩ := List.mem_map.mp hg
  exact ⟨_, rfl⟩

/-- What a slot requires does not lead to a variable, and whatever meets it is extended to a solution of the
slot. -/
structure Body.Spares (S : Body) (root target : String) : Prop where
  avoids : ∀ x ∈ S.required.edges, x.1.target ≠ target
  extended : ∀ data inherited found, ∀ μ ∈ (S.required.written root inherited).extend data .empty found,
    ∃ ρ ∈ (S.written root inherited).extend data .empty found, μ.Within ρ.get?

theorem Body.spares {S : Body} {root target : String}
    (h : ∀ x ∈ S.edges, x.1.target = target → x.1.isOptional = true) : S.Spares root target where
  avoids x hx htarget := by
    rw [S.required_parts.2.1] at hx
    obtain ⟨hx, hplain⟩ := List.mem_filter.mp hx
    simp [h x hx htarget] at hplain
  extended _ _ _ _ hμ := S.exists_extend_required hμ

def ExpandTree.below? : List String → ExpandTree → Option ExpandTree
  | [], expand => some expand
  | name :: path, expand => (expand.child? name).bind (below? path)

theorem ExpandTree.below?_concat (path : List String) (name : String) (expand : ExpandTree) :
    expand.below? (path ++ [name]) = (expand.below? path).bind (child? name) := by
  induction path generalizing expand with
  | nil => cases h : expand.child? name <;> simp [below?, h]
  | cons first path ih => cases h : expand.child? first <;> simp [below?, h, ih]

theorem ExpandTree.Expands.fits {schema : Schema} (hs : schema.Accepted) {T t : EntityType}
    {expand sub : ExpandTree} {path : List String} (h : expand.Expands schema T path t)
    (hT : T ∈ schema.types)
    (hbelow : expand.below? path = some sub) (hfits : expand.Fits schema T) : sub.Fits schema t := by
  induction h with
  | here => exact Option.some.inj hbelow ▸ hfits
  | navigation hp he hc ht _ ih =>
      obtain ⟨t', ht', htarget⟩ := hs.targetType hT hp he
      obtain rfl := Except.ok.inj (ht.symm.trans htarget)
      obtain ⟨-, hinside⟩ := hfits
      exact ih ht' (by simpa [below?, hc] using hbelow) (hinside _ _ _ _ hc (hs.property? hT hp) ht)

namespace Shape

variable {schema : Schema} {T t : EntityType} {expand sub : ExpandTree} {ps : List Property} {shape : Shape}
  {forest : Forest} {names names' : Naming} {position : Position} {kind : Nat → Option EntityType}

theorem Shows.select (hs : schema.Accepted) (hT : T ∈ schema.types)
    (h : Shows schema expand T.properties shape)
    (hfits : expand.Fits schema T) (hforest : shape.forest schema T = .ok forest) :
    expand.select schema T = .ok forest := by
  obtain ⟨other, hother⟩ := exists_ofExpand hs expand hT
  obtain rfl := h.unique (shows_ofExpand hs hT hother)
  simp only [ExpandTree.select, (ExpandTree.fault?_eq_none_iff hs hT expand).mpr hfits, hother, hforest, bind,
    Except.bind]

/-- An expanded navigation property is read over an edge of its own, with what is read of the related entity
below it. -/
theorem Shows.within_navigation (hs : schema.Accepted) (h : Shows schema expand ps shape)
    (hT : T ∈ schema.types) (hps : ∀ p ∈ ps, p ∈ T.properties) (hforest : shape.forest schema T = .ok forest)
    (hplaced : (forest.place Rule.builtin position names).failure = none)
    (hgrows : (forest.place Rule.builtin position names).names.Grows names') {n : Property} (hn : n ∈ ps)
    (he : n.isElementary = false) (hc : expand.child? n.name = some sub) (ht : schema.targetType n = .ok t) :
    ∃ r hop below inner before, names'.related? position.place n.name = some r ∧ schema.hop n = .ok hop ∧
      Shows schema sub t.properties below ∧ below.forest schema t = .ok inner ∧
      (inner.place Rule.builtin { position with place := r } before).failure = none ∧
      (inner.place Rule.builtin { position with place := r } before).names.Grows names' ∧
      (Body.alternative n.isSingle (.edge ⟨hop, !(n.isSingle && n.isMandatory), r.var⟩
        (inner.place Rule.builtin { position with place := r } before).body .nil) .nil).Within
          (forest.place Rule.builtin position names).body := by
  obtain ⟨b, below, inner, hreads, hbelow, hinner, hmem⟩ := h.branch_navigation hs hT hps hforest hn he hc ht
  obtain ⟨before, placement, _, -, hplacement, rfl, hfailure, hinside, hwithin⟩ :=
    Forest.place_within hmem hplaced
  have hcomplex : b.isComplex = true := by rw [hreads.isComplex, he]; rfl
  rw [Branch.placement_related hcomplex, hreads.name, hreads.isSingle, hreads.isMandatory] at hplacement
  obtain rfl := Except.ok.inj hplacement
  have hnames := hinside.trans hgrows
  have hr := (Forest.place_keeps.grows.trans hnames).related
    (Naming.keeps_relatedPlace before position.place n.name).2
  refine ⟨_, b.hop, below, inner, _, hr, hreads.relatedHop he, hbelow, hinner, hfailure, hnames, ?_⟩
  cases hsingle : n.isSingle with
  | true => simpa [hsingle, Route.wrap, Step.wrap] using hwithin
  | false => simpa [hsingle, Route.wrap, Step.wrap] using hwithin

theorem Shows.within_foreignKey (hs : schema.Accepted) (h : Shows schema expand ps shape)
    (hT : T ∈ schema.types) (hps : ∀ p ∈ ps, p ∈ T.properties) (hforest : shape.forest schema T = .ok forest)
    (hplaced : (forest.place Rule.builtin position names).failure = none)
    (hgrows : (forest.place Rule.builtin position names).names.Grows names') {f n : Property} (hf : f ∈ ps)
    (hn : n ∈ T.properties) (hkey : f.foreignKeyOf = some n.name) :
    ∃ r v u hop t i, n.isElementary = false ∧ n.isSingle = true ∧ schema.targetType n = .ok t ∧
      schema.hop n = .ok hop ∧ t.property? idName = some i ∧ names'.related? position.place n.name = some r ∧
      names'.value? r idName = some v ∧ names'.value? position.place f.name = some u ∧
      (Body.alternative true (.edge ⟨hop, f.isOptional, r.var⟩
        (.edge ⟨⟨i.predicate, false⟩, false, v⟩ .nil .nil) .nil) .nil).Within
          (forest.place Rule.builtin position names).body := by
  have hkey' := hs.foreignKey? hT (hps f hf)
  obtain ⟨hnone, -⟩ | ⟨-, -, -, -, -, -, he, -⟩ := hkey'
  · simp [hkey] at hnone
  obtain ⟨b, hreads, hmem⟩ := h.branch_value hs hT hps hforest hf he
  obtain ⟨before, placement, _, -, hplacement, rfl, -, hinside, hwithin⟩ := Forest.place_within hmem hplaced
  obtain ⟨hnone, -⟩ | ⟨n', hn', t, -, i, -, hop, -, hown, hcomplex, hsingle, ht, hh, hid, hk⟩ :=
    hreads.foreignKey
  · simp [hkey] at hnone
  obtain rfl : n = n' := by
    have hlookup := hs.property? hT hn'
    rw [← Option.some.inj (hkey.symm.trans hown), hs.property? hT hn] at hlookup
    exact Option.some.inj hlookup
  have hc : b.isComplex = false := by rw [hreads.isComplex, he]; rfl
  rw [Branch.placement_foreignKey hc hk rfl rfl] at hplacement
  obtain rfl := Except.ok.inj hplacement
  have hnames := hinside.trans hgrows
  have hlink := (Naming.keeps_link _ position.place b.name _).grows.trans hnames
  obtain ⟨hkeeps, hv⟩ := Naming.keeps_value (before.relatedPlace position.place n.name).2
    (before.relatedPlace position.place n.name).1 idName
  refine ⟨_, _, _, hop, t, i, hcomplex, hsingle, ht, hh, hid,
    hlink.related (hkeeps.related (Naming.keeps_relatedPlace before position.place n.name).2), hlink.value hv,
    hreads.name ▸ hnames.value (Naming.value?_link _ _ _ _), ?_⟩
  have hoptional : (!b.isMandatory) = f.isOptional := by simp [hreads.isMandatory, Property.isMandatory]
  rw [hoptional] at hwithin
  exact hwithin

theorem Shows.within_path (hs : schema.Accepted) {path : List String} (hpath : expand.Expands schema T path t)
    (hT : T ∈ schema.types) (h : Shows schema expand T.properties shape)
    (hforest : shape.forest schema T = .ok forest)
    (hplaced : (forest.place Rule.builtin position names).failure = none)
    (hgrows : (forest.place Rule.builtin position names).names.Grows names')
    (hlabel : names'.Labelled schema.kinds kind) (hkind : kind position.place.number = some T)
    (hbelow : expand.below? path = some sub) {M : Body}
    (hwithin : (forest.place Rule.builtin position names).body.Within M) :
    ∃ q shape' forest' before B, names'.follow position.place path = some q ∧ kind q.number = some t ∧
      t ∈ schema.types ∧ Shows schema sub t.properties shape' ∧ shape'.forest schema t = .ok forest' ∧
      (forest'.place Rule.builtin { position with place := q } before).failure = none ∧
      (forest'.place Rule.builtin { position with place := q } before).names.Grows names' ∧
      (forest'.place Rule.builtin { position with place := q } before).body.Within B ∧
      (position.place = q ∧ M = B ∨ B ∈ M.rootedAt q.var) := by
  induction hpath generalizing shape forest names position M with
  | here =>
      obtain rfl := Option.some.inj hbelow
      exact ⟨position.place, shape, forest, names, M, rfl, hkind, hT, h, hforest, hplaced, hgrows, hwithin,
        Or.inl ⟨rfl, rfl⟩⟩
  | @navigation T t t' _ _ n path hn he hc ht _ ih =>
      obtain ⟨t'', ht', htarget⟩ := hs.targetType hT hn he
      obtain rfl := Except.ok.inj (ht.symm.trans htarget)
      obtain ⟨r, hop, inside, inner, before, hr, -, hinside, hinner, hfailure, hnames, hedge⟩ :=
        h.within_navigation hs hT (fun _ => id) hforest hplaced hgrows hn he hc ht
      obtain ⟨C, hC, hwithinC, hrooted⟩ := (hedge.trans hwithin).rootedAt
      have htype : kind r.number = some t := by rw [(hlabel.related hr).2.2, hkind, hs.kinds_related hT hn ht]
      obtain ⟨q, shape', forest', before', B, hfollow, hrest⟩ :=
        ih ht' hinside hinner hfailure hnames htype (by simpa [ExpandTree.below?, hc] using hbelow) hwithinC
      obtain ⟨hkind', hmem, hshows', hforest', hplaced', hgrows', hbody, hB⟩ := hrest
      refine ⟨q, shape', forest', before', B,
        by simp [Naming.follow, hr, hfollow], hkind', hmem, hshows', hforest',
        hplaced', hgrows', hbody, Or.inr ?_⟩
      obtain ⟨rfl, rfl⟩ | hB := hB
      · exact hC
      · exact hrooted _ _ hB

end Shape
theorem Body.Each.agreed {schema : Schema} {names : Naming} {kind : Nat → Option EntityType} {q r : Place}
    {C : Body} (hC : C.Each (Body.declared schema names kind) q.var) {T : EntityType}
    (hkind : kind q.number = some T) (hT : T ∈ schema.types) {n : Property} (hn : n ∈ T.properties)
    (he : n.isElementary = false) (hsingle : n.isSingle = true)
    (hagree : ∀ g ∈ T.properties, g.foreignKeyOf = some n.name → g.isOptional = n.isOptional)
    (hr : names.related? q n.name = some r) {hop : Hop} (hh : schema.hop n = .ok hop) :
    ∀ S ∈ C.slots, ∀ x ∈ S.edges, x.1.target = r.var → x.1 = ⟨hop, n.isOptional, r.var⟩ := by
  rintro S hS ⟨e, below⟩ hx htarget
  have hedge := ((hC.of_mem_alternatives (mem_alternatives_of_mem_slots hS)).of_mem_edges hx).1
  obtain ⟨hh', p, hp, hrelated, hopt⟩ := hedge q T n r rfl hkind hT hn he hsingle hr htarget
  obtain rfl := Except.ok.inj (hh.symm.trans hh')
  have hflag : e.isOptional = n.isOptional := by
    obtain rfl | hkey := hrelated
    · exact hopt
    · exact hopt.trans (hagree p hp hkey)
  obtain ⟨hop, isOptional, target⟩ := e
  obtain rfl : target = r.var := htarget
  obtain rfl : isOptional = n.isOptional := hflag
  rfl

/-- A slot is the only one of a level, and one edge of it leads to a variable. -/
structure Body.OneEdge (B S : Body) (e : Edge) (below : Body) : Prop where
  slots : B.slots = [S]
  edges : (S.edges.filter fun x => x.1.target = e.target) = [(e, below)]

/-- The foreign key `f` of an entity has the variable of the identifier of the entity that is related by `n`.
This does not hold of the identifier of the entity itself, even where it is declared as a foreign key. -/
structure Naming.KeyOf (names : Naming) (q : Place) (f n : Property) (r : Place) (v : String) : Prop where
  related : names.related? q n.name = some r
  identifier : names.value? r idName = some v
  key : f.name ≠ idName → names.value? q f.name = some v

/-- All that is read of an entity of a type with an expand tree hangs below. -/
def ExpandTree.ReadBelow (schema : Schema) (expand : ExpandTree) (t : EntityType) (position : Position)
    (names : Naming) (below : Body) : Prop :=
  ∃ forest before whole after, expand.select schema t = .ok forest ∧
    forest.placeAll Rule.builtin position before = .ok (whole, after) ∧ after.Grows names ∧ whole.Within below

/-- At one entity, what is read over a foreign key and what is read of the related entity hang below one edge
of the slot, and no other edge of the slot leads there. -/
theorem Shape.Shows.shares {schema : Schema} {T : EntityType} {expand sub : ExpandTree} {shape : Shape}
    {forest : Forest} {names names' : Naming} {position : Position} {kind : Nat → Option EntityType}
    (hs : schema.Accepted) (h : Shows schema expand T.properties shape) (hT : T ∈ schema.types)
    (hfits : expand.Fits schema T) (hforest : shape.forest schema T = .ok forest)
    (hplaced : (forest.place Rule.builtin position names).failure = none)
    (hgrows : (forest.place Rule.builtin position names).names.Grows names')
    (hkind : kind position.place.number = some T) (hcopies : names'.Copies kind) {f n : Property}
    (hn : n ∈ T.properties) (hc : expand.child? n.name = some sub) (hf : f ∈ T.properties)
    (hkey : f.foreignKeyOf = some n.name)
    (hagree : ∀ g ∈ T.properties, g.foreignKeyOf = some n.name → g.isOptional = n.isOptional) {B : Body}
    (hwithin : (forest.place Rule.builtin position names).body.Within B) (htidy : B.Tidy)
    (hdeclared : B.Each (Body.declared schema names' kind) position.place.var) :
    ∃ r v hop t i S below, n.isElementary = false ∧ n.isSingle = true ∧ schema.hop n = .ok hop ∧
      schema.targetType n = .ok t ∧ t.property? idName = some i ∧ names'.KeyOf position.place f n r v ∧
      B.OneEdge S ⟨hop, n.isOptional, r.var⟩ below ∧
      (∃ rest, (⟨⟨i.predicate, false⟩, false, v⟩, rest) ∈ below.edges) ∧
      sub.ReadBelow schema t { position with place := r } names' below := by
  obtain ⟨r, v, u, hop, t, i, he, hsingle, ht, hh, hid, hr, hv, hu, hkeyed⟩ :=
    h.within_foreignKey hs hT (fun _ => id) hforest hplaced hgrows hf hn hkey
  obtain ⟨r', hop', shape', inner, before, hr', hh', hinside, hinner, hfailure, hnames, hnavigated⟩ :=
    h.within_navigation hs hT (fun _ => id) hforest hplaced hgrows hn he hc ht
  obtain rfl := Option.some.inj (hr.symm.trans hr')
  obtain rfl := Except.ok.inj (hh.symm.trans hh')
  have hflag : (!(n.isSingle && n.isMandatory)) = n.isOptional := by simp [hsingle, Property.isMandatory]
  rw [hagree f hf hkey] at hkeyed
  rw [hflag, hsingle] at hnavigated
  -- both edges are in the slot, and they are the same
  obtain ⟨S, hS, ⟨below, hbelow, ⟨rest, hidEdge, -⟩, -⟩, -⟩ := (hkeyed.trans hwithin).1
  obtain ⟨S', hS', ⟨below', hbelow', hwhole⟩, -⟩ := (hnavigated.trans hwithin).1
  obtain ⟨hslots, htidy⟩ := htidy.slots_eq hS
  obtain rfl : S' = S := by simpa [hslots] using hS'
  have hedges := htidy.edges_to hbelow (hdeclared.agreed hkind hT hn he hsingle hagree hr hh S' hS)
  obtain rfl : below' = below := by
    have hmem : (_, below') ∈ S'.edges.filter fun x => x.1.target = r.var :=
      List.mem_filter.mpr ⟨hbelow', by simp⟩
    rw [hedges] at hmem
    exact (Prod.mk.inj (List.mem_singleton.mp hmem)).2
  have hlinked : names'.KeyOf position.place f n r v := by
    refine ⟨hr, hv, fun hne => ?_⟩
    obtain ⟨r', hr', hid'⟩ := hcopies _ T f n.name u hkind hf hne hkey hu
    obtain rfl := Option.some.inj (hr.symm.trans hr')
    rw [hu, ← hid', hv]
  obtain ⟨t', ht', htarget⟩ := hs.targetType hT hn he
  obtain rfl := Except.ok.inj (ht.symm.trans htarget)
  obtain ⟨-, hfits⟩ := hfits
  have hselect := hinside.select hs ht' (hfits _ _ _ _ hc (hs.property? hT hn) ht) hinner
  exact ⟨r, v, hop, t, i, S', below', he, hsingle, hh, ht, hid, hlinked, ⟨hslots, hedges⟩, ⟨rest, hidEdge⟩,
    inner, before, _, _, hselect, by simp only [Forest.placeAll, hfailure], hnames, hwhole⟩

namespace ExpandTree

variable {schema : Schema} {T T₀ : EntityType} {expand sub : ExpandTree} {pattern : Pattern} {names : Naming}
  {path : List String} {f n : Property}

/-- What hangs at the variables of an expanded read is tidy, and its edges to related entities are those that
the schema declares. -/
theorem compile_typed (hs : schema.Accepted) (hT₀ : T₀ ∈ schema.types)
    (hc : expand.compile schema Rule.builtin T₀ Reader.startingPosition.1 Reader.startingPosition.2 =
      .ok (pattern, names)) :
    ∃ kind, names.Labelled schema.kinds kind ∧ kind Reader.startingPosition.1.place.number = some T₀ ∧
      names.Copies kind ∧
      ∀ v, ∀ C ∈ pattern.rootedAt v, C.Tidy ∧ C.Each (Body.declared schema names kind) v := by
  obtain ⟨kind, hlabel, hkind⟩ := compile_kinds hc
  obtain ⟨shape, forest, hshape, hforest, hplaced, rfl, rfl⟩ := compile_ok hc
  have htyped := (Shape.shows_ofExpand hs hT₀ hshape).ofType hs hT₀ (fun _ => id) hforest
  obtain ⟨source, hsource⟩ := forest.place_sourced Reader.startingPosition.1 Reader.sourced_start
  have hcopies := htyped.place_copies hs hT₀ hplaced (.refl _) hlabel hkind
    fun q T f navigation v _ _ _ _ hv => absurd (show (none : Option String) = some v from hv) (by simp)
  have hdeclared := htyped.place_declared hs hT₀ hplaced (.refl _) hlabel hsource.sourced hkind
  have hclass : (classBody T₀).Tidy ∧ (classBody T₀).Each
      (Body.declared schema (forest.place Rule.builtin Reader.startingPosition.1
        Reader.startingPosition.2).names kind) Reader.startingPosition.1.place.var := by
    unfold classBody
    split
    · exact ⟨trivial, trivial, trivial⟩
    · exact ⟨trivial, trivial⟩
  have htidy := hclass.1.merge (@Forest.place_tidy forest Reader.startingPosition.1 Reader.startingPosition.2)
  have heach := hclass.2.merge hdeclared
  exact ⟨kind, hlabel, hkind, hcopies, fun v C hC => ⟨Pattern.forall_rootedAt htidy htidy.eachBelow C hC,
    Pattern.forall_rootedAt heach heach.eachBelow C hC⟩⟩

/-- An expansion and the foreign keys of its navigation property share one edge, if they have the same flag:
in the slot of the entity there is exactly one edge to the related entity. It is optional if and only if the
navigation property is, and has the identifier that the foreign key copies below it, and all that is read of
the related entity. So nothing that the slot requires of an entity leads to an optional related one. -/
theorem compile_shared (hs : schema.Accepted) (hT₀ : T₀ ∈ schema.types)
    (hc : expand.compile schema Rule.builtin T₀ Reader.startingPosition.1 Reader.startingPosition.2 =
      .ok (pattern, names))
    (hpath : expand.Expands schema T₀ path T) (hn : n ∈ T.properties)
    (hexpanded : expand.below? (path ++ [n.name]) = some sub) (hf : f ∈ T.properties)
    (hkey : f.foreignKeyOf = some n.name)
    (hagree : ∀ g ∈ T.properties, g.foreignKeyOf = some n.name → g.isOptional = n.isOptional) :
    ∃ q r v hop t i B S below,
      names.follow Reader.startingPosition.1.place path = some q ∧ names.KeyOf q f n r v ∧
      schema.hop n = .ok hop ∧ schema.targetType n = .ok t ∧ t.property? idName = some i ∧
      B ∈ pattern.rootedAt q.var ∧ B.OneEdge S ⟨hop, n.isOptional, r.var⟩ below ∧
      (∃ rest, (⟨⟨i.predicate, false⟩, false, v⟩, rest) ∈ below.edges) ∧
      sub.ReadBelow schema t { Reader.startingPosition.1 with place := r } names below ∧
      (∀ C ∈ pattern.rootedAt q.var, ∀ S ∈ C.slots, ∀ x ∈ S.edges, x.1.target = r.var →
        x.1 = ⟨hop, n.isOptional, r.var⟩) ∧
      (n.isOptional = true → S.Spares q.var r.var) := by
  obtain ⟨kind, hlabel, hkind, hcopies, hrooted⟩ := compile_typed hs hT₀ hc
  have hfits : expand.Fits schema T₀ := by
    obtain ⟨hfits, -⟩ | ⟨-, e, he⟩ := compile_cases hs hT₀ expand Reader.startingPosition.1
      Reader.startingPosition.2
    · exact hfits
    · simp [hc] at he
  obtain ⟨sub', hsub', hchild⟩ := Option.bind_eq_some_iff.mp (below?_concat path n.name expand ▸ hexpanded)
  obtain ⟨shape, forest, hshape, hforest, hplaced, rfl, rfl⟩ := compile_ok hc
  -- the entity at the end of the path, with what is read of it
  obtain ⟨q, shape', forest', before, B, hfollow, hkindq, hT, hshows, hforest', hplaced',
    hgrows, hbody, hB⟩ :=
    (Shape.shows_ofExpand hs hT₀ hshape).within_path hs hpath hT₀ hforest hplaced (.refl _) hlabel hkind hsub'
      (Body.within_merge_right (classBody T₀) _)
  replace hB : B ∈ Pattern.rootedAt ⟨Reader.startingPosition.1.place.var, (classBody T₀).merge
      (forest.place Rule.builtin Reader.startingPosition.1 Reader.startingPosition.2).body⟩ q.var := by
    obtain ⟨rfl, rfl⟩ | hB := hB
    · simp [Pattern.rootedAt]
    · exact List.mem_append_right _ hB
  obtain ⟨htidy, hdeclared⟩ := hrooted q.var B hB
  obtain ⟨r, v, hop, t, i, S, below, he, hsingle, hh, ht, hid, hlinked, hedge, hidEdge, hread⟩ :=
    hshows.shares hs hT (hpath.fits hs hT₀ hsub' hfits) hforest' hplaced' hgrows hkindq hcopies hn
      hchild hf hkey hagree hbody htidy hdeclared
  have hagreed := fun C hC => (hrooted q.var C hC).2.agreed hkindq hT hn he hsingle hagree hlinked.related hh
  refine ⟨q, r, v, hop, t, i, B, S, below, hfollow, hlinked, hh, ht, hid, hB, hedge, hidEdge, hread, hagreed,
    fun hopt => Body.spares fun x hx htarget => ?_⟩
  rw [hagreed B hB S (by simp [hedge.slots]) x hx htarget]
  exact hopt

/-- The wholes of the parts of things, expanded, where their identifiers are read as well. -/
theorem compile_shared_sample :
    Sample.schema.Accepted ∧ Sample.thing ∈ Sample.schema.types ∧
    ∃ pattern names q r v B S below, ExpandTree.compile Sample.schema Rule.builtin Sample.thing
        (.cons "Parts" (.cons "Whole" .nil .nil) .nil) Reader.startingPosition.1 Reader.startingPosition.2 =
          .ok (pattern, names) ∧
      names.follow Reader.startingPosition.1.place ["Parts"] = some q ∧ names.related? q "Whole" = some r ∧
      names.value? r idName = some v ∧ names.value? q "WholeId" = some v ∧
      B ∈ pattern.rootedAt q.var ∧ B.OneEdge S ⟨⟨"ex:whole", false⟩, true, r.var⟩ below ∧
      (∃ rest, (⟨⟨"ex:id", false⟩, false, v⟩, rest) ∈ below.edges) ∧ S.Spares q.var r.var := by
  have hT : Sample.thing ∈ Sample.schema.types := List.mem_singleton_self _
  have hpath : Expands Sample.schema Sample.thing (.cons "Parts" (.cons "Whole" .nil .nil) .nil) ["Parts"]
      Sample.thing := .navigation (p := Sample.thing.properties.get ⟨4, by decide⟩)
        (by decide) rfl rfl rfl .here
  have hn : Sample.thing.properties.get ⟨2, by decide⟩ ∈ Sample.thing.properties := List.get_mem _ _
  have hf : Sample.thing.properties.get ⟨3, by decide⟩ ∈ Sample.thing.properties := List.get_mem _ _
  obtain ⟨pattern, names, hc⟩ : ∃ pattern names, ExpandTree.compile Sample.schema Rule.builtin Sample.thing
      (.cons "Parts" (.cons "Whole" .nil .nil) .nil) Reader.startingPosition.1 Reader.startingPosition.2 =
        .ok (pattern, names) := exists_compile Sample.accepted hT rfl _ _
  obtain ⟨q, r, v, hop, t, i, B, S, below, hfollow, hlinked, hh, ht, hid, hB, hedge, hidEdge, -,
    -, hspares⟩ :=
    compile_shared Sample.accepted hT hc hpath hn rfl hf rfl (by decide)
  obtain rfl : (⟨"ex:whole", false⟩ : Hop) = hop := Except.ok.inj hh
  obtain rfl : Sample.thing = t := Except.ok.inj ht
  obtain rfl : Sample.idProperty = i := Option.some.inj hid
  exact ⟨Sample.accepted, hT, pattern, names, q, r, v, B, S, below, hc, hfollow, hlinked.related,
    hlinked.identifier, hlinked.key (by decide), hB, hedge, hidEdge, hspares rfl⟩

end ExpandTree

namespace Sample

def ownedProfile : EntityType where
  name := "Profile"
  rdfClass := some "ex:Profile"
  properties := [
    { name := "Id", target := "Edm.Int32", predicate := "ex:id" },
    { name := "Owner", target := "Thing", predicate := "ex:owner", isOptional := true },
    { name := "OwnerId", target := "Edm.Int32", predicate := "ex:ownerId", foreignKeyOf := some "Owner" }]

def ownedProfiles : Schema where
  prefixes := [("ex", "http://example.org/"), ("rdf", Schema.rdfNamespace)]
  types := [thing, ownedProfile]
  sets := [("Profiles", "Profile")]

def ownerlessData : Dataset where
  statements := [
    ⟨.iri "ex:profile", .iri "rdf:type", .iri "ex:Profile"⟩,
    ⟨.iri "ex:profile", .iri "ex:id", .ofNumeral "1"⟩]
  resolve := .iri

end Sample

/-- The slot of a profile has two edges to the owner, and one of them is plain, so that a profile without an
owner is dropped. -/
theorem ExpandTree.compile_unshared :
    Sample.ownedProfiles.Accepted ∧ Sample.ownedProfile ∈ Sample.ownedProfiles.types ∧
    ∃ pattern names r S below below', ExpandTree.compile Sample.ownedProfiles Rule.builtin Sample.ownedProfile
        (.cons "Owner" .nil .nil) Reader.startingPosition.1 Reader.startingPosition.2 = .ok (pattern, names) ∧
      names.related? Reader.startingPosition.1.place "Owner" = some r ∧ pattern.body.slots = [S] ∧
      (S.edges.filter fun x => x.1.target = r.var) =
        [(⟨⟨"ex:owner", false⟩, true, r.var⟩, below), (⟨⟨"ex:owner", false⟩, false, r.var⟩, below')] ∧
      pattern.group.solutions Sample.ownerlessData .empty = [] := by
  have haccepted : Sample.ownedProfiles.Accepted :=
    ⟨[("ex", "http://example.org/")], [Sample.thing, Sample.ownedProfile],
      [("Profiles", "Profile")], by decide, by decide +kernel⟩
  exact ⟨haccepted, by decide, _, _, _, _, _, _, rfl, rfl, rfl, rfl, by decide⟩

end EntityGraph
