import EntityGraph.Proofs.Read.Located

/-!
# Alternatives of a read

What hangs at the variable of an entity has edges to its values, a slot for what is single-valued, and
beside the slot one alternative for each expanded collection of the entity, in the order of the schema. So
solutions of the pattern bind at most one of the collections of an entity, and collections are not
multiplied with each other.
-/
namespace EntityGraph

open Sparql

/-- The alternative is the optional edge of a navigation property. -/
def Naming.Collects (schema : Schema) (names : Naming) (q : Place) (n : Property) (A : Body) : Prop :=
  ∃ hop r below, schema.hop n = .ok hop ∧ names.related? q n.name = some r ∧
    A = .edge ⟨hop, true, r.var⟩ below .nil

/-- What hangs at an entity: edges of its own to values, one slot at most, with edges to values and to single
related entities, and the collections. -/
structure Body.LaidOut (schema : Schema) (names : Naming) (expand : ExpandTree)
    (path : List String) (q : Place) (T : EntityType) (C : Body) : Prop where
  own : ∀ x ∈ C.edges, names.ToValue q T x.1 ∧ ∀ name r, names.related? q name = some r → x.1.target ≠ r.var
  slots : C.slots.length ≤ 1
  slot : ∀ S ∈ C.slots, S.leaves = [] ∧ S.alternatives = [] ∧ S.conjuncts = [] ∧ ∀ x ∈ S.edges,
    names.ToValue q T x.1 ∨ ∃ n, n.isSingle = true ∧ names.ToRelated schema q T n x.1
  apart : ∀ S ∈ C.slots, ∀ x ∈ S.edges, ∀ n ∈ T.properties, n.isSingle = false →
    ∀ r, names.related? q n.name = some r → x.1.target ≠ r.var
  collections : ∀ A ∈ C.collections, ∃ n ∈ T.properties, n.isSingle = false ∧
    (expand.below? (path ++ [n.name])).isSome ∧ names.Collects schema q n A
  conjuncts : C.conjuncts = []

section LaidOut

variable {schema : Schema} {root T : EntityType} {address : Nat → Option (List String)} {names : Naming}
  {expand : ExpandTree} {q r : Place} {path : List String} {e : Edge} {C : Body}

theorem Naming.ToValue.ne_related (haddress : names.Labelled Naming.addresses address)
    (hq : q.Located schema root address path T) (h : names.ToValue q T e) {name : String}
    (hr : names.related? q name = some r) : e.target ≠ r.var := by
  obtain ⟨p, -, -, hv⟩ := h
  intro htarget
  obtain ⟨k, hk, -, -, hnone⟩ := haddress.value hv
  have hsome := (haddress.related hr).2.2
  rw [variableName_injective (htarget.symm.trans hk), hnone, hq.address] at hsome
  simp [Naming.addresses] at hsome

theorem Body.seats_iff {seat : Body.Seat} (hq : q.Located schema root address path T) :
    Body.seats schema root address names expand seat q.var e ↔ names.Seats schema expand q path T e seat := by
  refine ⟨?_, fun h => ⟨q, path, T, rfl, hq, h⟩⟩
  rintro ⟨q', path', T', hvar, hq', h⟩
  obtain ⟨rfl, rfl, rfl⟩ := hq.of_var_eq hq' hvar
  exact h

theorem Body.Seated.laidOut (hs : schema.Accepted) (haddress : names.Labelled Naming.addresses address)
    (h : C.Seated (Body.seats schema root address names expand) .own q.var) (htidy : C.Tidy)
    (hq : q.Located schema root address path T) : C.LaidOut schema names expand path q T := by
  have hslot : ∀ S ∈ C.slots, ∀ x ∈ S.edges,
      names.ToValue q T x.1 ∨ ∃ n, n.isSingle = true ∧ names.ToRelated schema q T n x.1 :=
    fun S hS x hx => (Body.seats_iff hq).mp ((h.of_mem_slots hS).of_mem_edges hx)
  refine ⟨fun x hx => ?_, ?_, fun S hS => ?_, fun S hS x hx n hn hmany r hr => ?_, fun A hA => ?_,
    h.conjuncts_eq_nil⟩
  · have hvalue : names.ToValue q T x.1 := (Body.seats_iff hq).mp (h.of_mem_edges hx)
    exact ⟨hvalue, fun name r hr => hvalue.ne_related haddress hq hr⟩
  · cases hslots : C.slots with
    | nil => simp
    | cons S rest => simp [← hslots, (htidy.slots_eq (hslots ▸ List.mem_cons_self)).1]
  · obtain ⟨hleaves, halternatives, hconjuncts⟩ := (h.of_mem_slots hS).slot_parts
    exact ⟨hleaves, halternatives, hconjuncts, hslot S hS⟩
  · obtain hvalue | ⟨n', hsingle, hn', -, -, r', hr', htarget⟩ := hslot S hS x hx
    · exact hvalue.ne_related haddress hq hr
    · intro htarget'
      obtain rfl : r' = r := congrArg Place.mk (variableName_injective (htarget.symm.trans htarget'))
      obtain rfl := hq.related_inj hs haddress hq hn' hn hr' hr
      simp [hmany] at hsingle
  · obtain ⟨e, below, rfl, hseat⟩ := h.of_mem_collections hA
    obtain ⟨hopt, n, hmany, ⟨hn, -, hh, r, hr, htarget⟩, hexpanded⟩ := (Body.seats_iff hq).mp hseat
    obtain ⟨hop, isOptional, target⟩ := e
    obtain rfl : isOptional = true := hopt
    obtain rfl : target = r.var := htarget
    exact ⟨n, hn, hmany, hexpanded, hop, r, below, hh, hr, rfl⟩

end LaidOut

theorem Naming.Labelled.rootedAt_eq_nil {α : Type} {scheme : Naming.Labelling α} {label : Nat → α}
    {names : Naming}
    (h : names.Labelled scheme label) {B : Body} {i k : Nat} (hB : B.Each (Body.walks names) (variableName i))
    (hk : k ≤ i) : B.rootedAt (variableName k) = [] := by
  induction B generalizing i with
  | nil => rfl
  | leaf predicate term rest ih => exact ih hB.2 hk
  | edge e below rest ihBelow ih =>
      obtain ⟨hedge, hbelow, hrest⟩ := hB
      obtain ⟨i', j, hi, htarget, hlt⟩ := h.step_lt hedge
      obtain rfl := variableName_injective hi
      have hne : e.target ≠ variableName k := by
        rw [htarget]
        exact fun heq => by have := variableName_injective heq; omega
      rw [htarget] at hbelow
      rw [Body.rootedAt, if_neg hne, ihBelow hbelow (by omega), ih hrest hk]
      rfl
  | alternative isSlot body rest ihBody ih =>
      rw [Body.rootedAt, ihBody hB.1 hk, ih hB.2 hk]
      rfl
  | conjunct own body rest _ _ => exact absurd hB.1 id

theorem pair_sublist {α : Type} {l : List α} {a b : α} (ha : a ∈ l) (hb : b ∈ l) (hne : a ≠ b) :
    [a, b].Sublist l ∨ [b, a].Sublist l := by
  obtain ⟨before, after, rfl⟩ := List.append_of_mem ha
  obtain hb | hb := List.mem_append.mp hb
  · exact Or.inr ((List.singleton_sublist.mpr hb).append (List.singleton_sublist.mpr List.mem_cons_self))
  · have hafter := List.singleton_sublist.mpr ((List.mem_cons.mp hb).resolve_left hne.symm)
    exact Or.inl ((hafter.cons_cons a).trans (List.sublist_append_right _ _))

theorem ExpandTree.classBody_parts (T : EntityType) : (classBody T).Neat ∧ (classBody T).tagged = [] ∧
    (classBody T).targets = [] ∧ ∀ c root, (classBody T).Seated c .own root := by
  unfold classBody
  split
  · exact ⟨Body.neat_leaf _ _, rfl, rfl, fun _ _ => ⟨rfl, trivial⟩⟩
  · exact ⟨Body.neat_nil, rfl, rfl, fun _ _ => trivial⟩

namespace ExpandTree

variable {schema : Schema} {T t : EntityType} {expand sub : ExpandTree} {pattern : Pattern} {names : Naming}

/-- The pattern of an expanded read, with the addresses of its entities. -/
structure Laying (schema : Schema) (expand : ExpandTree) (T : EntityType) (names : Naming)
    (address : Nat → Option (List String)) (shown : Body) (pattern : Pattern) : Prop where
  labelled : names.Labelled Naming.addresses address
  located : Reader.startingPosition.1.place.Located schema T address [] T
  displays : shown.Displays schema names expand T Reader.startingPosition.1.place T.properties
  pattern_eq : pattern = ⟨Reader.startingPosition.1.place.var, (classBody T).merge shown⟩
  walks : pattern.body.Each (Body.walks names) pattern.root

theorem compile_laying (hs : schema.Accepted) (hT : T ∈ schema.types)
    (hc : expand.compile schema Rule.builtin T Reader.startingPosition.1 Reader.startingPosition.2 =
      .ok (pattern, names)) : ∃ address shown, Laying schema expand T names address shown pattern := by
  have hwalks := compile_walks hs hT hc
  obtain ⟨address, haddress, hstart⟩ := compile_labelled hc Naming.addresses (some [])
  obtain ⟨shape, forest, hshape, hforest, hplaced, rfl, rfl⟩ := compile_ok hc
  exact ⟨address, _, haddress, ⟨hstart, rfl, hT⟩,
    (Shape.shows_ofExpand hs hT hshape).displays hs hT (fun _ => id) hforest hplaced (.refl _), rfl, hwalks⟩

namespace Laying

variable {address : Nat → Option (List String)} {shown : Body} (hs : schema.Accepted)
  (h : Laying schema expand T names address shown pattern) {q r r' : Place} {path : List String}
  {n n' : Property}

include h

theorem without (k : Nat) : pattern.body.Each (Body.without (variableName k)) pattern.root := by
  refine h.walks.mono ?_ (fun _ _ _ => trivial) fun _ _ => id
  rintro _ _ _ hterm rfl
  simp [Body.walks] at hterm

theorem rootedAt_eq_nil : ∀ C ∈ pattern.rootedAt q.var, C.rootedAt q.var = [] := by
  intro C hC
  have hwalks := Pattern.forall_rootedAt h.walks h.walks.eachBelow C hC
  exact h.labelled.rootedAt_eq_nil hwalks le_rfl

include hs

theorem located_of_rootedAt {v : String} (hv : ∀ q name, names.value? q name ≠ some v) {C : Body}
    (hC : C ∈ pattern.rootedAt v) : ∃ path q t, v = q.var ∧
      names.follow Reader.startingPosition.1.place path = some q ∧ q.Located schema T address path t := by
  have hwithout := h.without 0
  obtain rfl := h.pattern_eq
  obtain hC | hC := List.mem_append.mp hC
  · split at hC
    · next hroot => exact ⟨[], _, T, hroot.symm, rfl, h.located⟩
    · simp at hC
  · obtain hmem | hmem := Body.mem_targets_of_merge (Body.mem_targets_of_mem_rootedAt hwithout hC)
    · simp [(classBody_parts T).2.2.1] at hmem
    · obtain ⟨q, name, hvalue⟩ | ⟨q, name, suffix, t, hvar, hfollow, hq, -⟩ :=
        h.displays.of_mem_targets hs h.labelled h.located (fun _ _ => Set.mem_univ _) hmem
      · exact absurd hvalue (hv q name)
      · exact ⟨name :: suffix, q, t, hvar, hfollow, hq⟩

theorem laidOut (hq : q.Located schema T address path t) {C : Body} (hC : C ∈ pattern.rootedAt q.var) :
    C.LaidOut schema names expand path q t := by
  obtain rfl := h.pattern_eq
  obtain ⟨hneat, -, -, hseated⟩ := classBody_parts T
  have hshown : shown.Seated (Body.seats schema T address names expand) .own _ :=
    h.displays.seated hs h.labelled h.located rfl
  have hseats := (hseated _ _).merge hshown
  have htidy := (hneat.merge h.displays.neat).tidy
  exact (Pattern.forall_rootedAt hseats hseats.eachBelow C hC).laidOut hs h.labelled
    (Pattern.forall_rootedAt htidy htidy.eachBelow C hC) hq

theorem count_targets_le (hq : q.Located schema T address path t) (hn : n ∈ t.properties)
    (hmany : n.isSingle = false) (hr : names.related? q n.name = some r) :
    pattern.body.targets.count r.var ≤ 1 := by
  obtain ⟨-, -, htargets, -⟩ := classBody_parts T
  have hcount := Body.count_merge_le (classBody T) shown r.var
  rw [htargets, List.count_nil, Nat.zero_add] at hcount
  rw [h.pattern_eq]
  exact hcount.trans (h.displays.count_targets_le hs h.labelled h.located
    (hs.checks.1 T h.located.declared).2 hq hn hmany hr)

/-- At the end of a path of expanded properties, the collections stand in the order of the schema. -/
theorem walk (hpath : expand.Expands schema T path t) (hbelow : expand.below? path = some sub) :
    ∃ q, ∃ B ∈ pattern.rootedAt q.var, names.follow Reader.startingPosition.1.place path = some q ∧
      q.Located schema T address path t ∧
      List.Forall₂ (names.Collects schema q) (sub.collections t.properties) B.collections := by
  obtain rfl := h.pattern_eq
  obtain ⟨-, htagged, -, -⟩ := classBody_parts T
  obtain ⟨q, B', B, hfollow, hq, hB', htagged, hB⟩ := h.displays.walk hs h.labelled hpath h.located hbelow
    (Body.tagged_merge_right htagged h.displays.neat)
  refine ⟨q, B, ?_, hfollow, hq, ?_⟩
  · obtain ⟨rfl, rfl⟩ | hB := hB
    · simp [Pattern.rootedAt]
    · exact List.mem_append_right _ hB
  · rw [Body.collections_of_tagged htagged]
    refine hB'.collections.imp fun n A hcollection => ?_
    obtain ⟨hop, r, _, _, below, hh, _, _, hr, _, hA⟩ := hcollection
    exact ⟨hop, r, below, hh, hr, hA⟩

theorem collections_eq_nil (hq : q.Located schema T address path t) (hbelow : expand.below? path = some sub)
    {B C : Body} (hB : B ∈ pattern.rootedAt q.var)
    (hcollects : List.Forall₂ (names.Collects schema q) (sub.collections t.properties) B.collections)
    (hC : C ∈ pattern.rootedAt q.var) : C = B ∨ C.collections = [] := by
  cases hlist : C.collections with
  | nil => exact Or.inr rfl
  | cons A rest =>
      have hA : A ∈ C.collections := hlist ▸ List.mem_cons_self
      obtain ⟨n, hn, hmany, hexpanded, hop, r, below, -, hr, rfl⟩ := (h.laidOut hs hq hC).collections A hA
      have hlisted : [n].Sublist (sub.collections t.properties) := by
        rw [below?_concat, hbelow] at hexpanded
        exact List.singleton_sublist.mpr (List.mem_filter.mpr ⟨hn, by simpa [hmany] using hexpanded⟩)
      obtain ⟨_, hsub, hmatch⟩ := exists_sublist_of_forall₂ hcollects hlisted
      obtain ⟨A', _, ⟨hop', r', below', -, hr', rfl⟩, -, rfl⟩ := List.forall₂_cons_left_iff.mp hmatch
      obtain rfl := Option.some.inj (hr.symm.trans hr')
      have hleads : ∀ {D : Body} {hop below}, Body.edge ⟨hop, true, r.var⟩ below .nil ∈ D.collections →
          r.var ∈ D.targets := fun {D} _ _ hD =>
        Body.mem_targets_of_mem_alternatives (D.collections_sublist.subset hD) (by simp [Body.targets])
      exact Or.inl (Pattern.eq_of_rootedAt (h.count_targets_le hs hq hn hmany hr) h.rootedAt_eq_nil hC
        hB (hleads hA) (hleads (hsub.subset List.mem_cons_self)))

theorem not_both_bound (hq : q.Located schema T address path t) {B : Body} (hB : B ∈ pattern.rootedAt q.var)
    (hcollects : List.Forall₂ (names.Collects schema q) (sub.collections t.properties) B.collections)
    (hpair : [n, n'].Sublist (sub.collections t.properties)) :
    ∃ r r', names.related? q n.name = some r ∧ names.related? q n'.name = some r' ∧
      ∀ data, ∀ μ ∈ pattern.group.solutions data .empty, μ.get? r.var = none ∨ μ.get? r'.var = none := by
  obtain ⟨_, hsub, hmatch⟩ := exists_sublist_of_forall₂ hcollects hpair
  obtain ⟨A, _, ⟨hop, r, below, -, hr, rfl⟩, hrest, rfl⟩ := List.forall₂_cons_left_iff.mp hmatch
  obtain ⟨A', _, ⟨hop', r', below', -, hr', rfl⟩, hnil, rfl⟩ := List.forall₂_cons_left_iff.mp hrest
  obtain rfl := List.forall₂_nil_left_iff.mp hnil
  have hhere : B.Forks r.var r'.var :=
    .here (hsub.trans B.collections_sublist) (by simp [Body.targets]) (by simp [Body.targets])
  have hforks : pattern.body.Forks r.var r'.var := by
    obtain hB | hB := List.mem_append.mp hB
    · split at hB
      · exact List.mem_singleton.mp hB ▸ hhere
      · simp at hB
    · exact hhere.of_rootedAt (h.without 0) hB
  -- the two entities are led to once, and they are not the root
  have hlisted : ∀ m ∈ [n, n'], m ∈ t.properties ∧ m.isSingle = false := fun m hm => by
    obtain ⟨hm, hmany⟩ := List.mem_filter.mp (hpair.subset hm)
    exact ⟨hm, by simpa using (Bool.and_eq_true_iff.mp hmany).1⟩
  have honce : ∀ m ∈ [n, n'], ∀ r, names.related? q m.name = some r →
      pattern.body.targets.count r.var ≤ 1 ∧ pattern.root ≠ r.var := by
    intro m hm r hr
    obtain ⟨hmem, hmany⟩ := hlisted m hm
    refine ⟨h.count_targets_le hs hq hmem hmany hr, fun hroot => ?_⟩
    rw [h.pattern_eq] at hroot
    have hzero : Reader.startingPosition.1.place.number = r.number := variableName_injective hroot
    exact absurd (h.labelled.related hr).1 (hzero ▸ Nat.not_lt_zero _)
  obtain ⟨hcount, hroot⟩ := honce n (by simp) r hr
  obtain ⟨hcount', hroot'⟩ := honce n' (by simp) r' hr'
  refine ⟨r, r', hr, hr', fun data μ hμ => Pattern.not_both_bound hforks hcount hcount' ?_ ?_ hμ⟩
  · rintro v (rfl | rfl)
    · exact h.without r.number
    · exact h.without r'.number
  · rintro v (rfl | rfl)
    · exact hroot
    · exact hroot'

end Laying

/-- What is read of an entity is laid out in alternatives. What hangs at a variable that is no value's hangs
at an entity on a path from the root: its own edges lead to values, there is one slot at most, which has no
edge to a collection, all other alternatives are collections, and there are no conjuncts. At the end of a path
of expanded properties one of the patterns has the expanded collections in the order of the schema, each as an
optional edge in an alternative of its own, and the others have none. So no solution binds the variables of
two collections of an entity. -/
theorem compile_unions (hs : schema.Accepted) (hT : T ∈ schema.types)
    (hc : expand.compile schema Rule.builtin T Reader.startingPosition.1 Reader.startingPosition.2 =
      .ok (pattern, names)) :
    (∀ v, (∀ q name, names.value? q name ≠ some v) → ∀ C ∈ pattern.rootedAt v, ∃ path q t,
      v = q.var ∧ names.follow Reader.startingPosition.1.place path = some q ∧
        schema.typeAt? T path = some t ∧
      C.LaidOut schema names expand path q t) ∧
    ∀ path t sub, expand.Expands schema T path t → expand.below? path = some sub →
      ∃ q, ∃ B ∈ pattern.rootedAt q.var, names.follow Reader.startingPosition.1.place path = some q ∧
        List.Forall₂ (names.Collects schema q) (sub.collections t.properties) B.collections ∧
        (∀ C ∈ pattern.rootedAt q.var, C.LaidOut schema names expand path q t ∧
          (C = B ∨ C.collections = [])) ∧
        ∀ n ∈ sub.collections t.properties, ∀ n' ∈ sub.collections t.properties, n ≠ n' →
          ∃ r r', names.related? q n.name = some r ∧ names.related? q n'.name = some r' ∧
            ∀ data, ∀ μ ∈ pattern.group.solutions data .empty, μ.get? r.var = none ∨
              μ.get? r'.var = none := by
  obtain ⟨address, shown, hlaying⟩ := compile_laying hs hT hc
  refine ⟨fun v hv C hC => ?_, fun path t sub hpath hbelow => ?_⟩
  · obtain ⟨path, q, t, rfl, hfollow, hq⟩ := hlaying.located_of_rootedAt hs hv hC
    exact ⟨path, q, t, rfl, hfollow, hq.type, hlaying.laidOut hs hq hC⟩
  · obtain ⟨q, B, hB, hfollow, hq, hcollects⟩ := hlaying.walk hs hpath hbelow
    refine ⟨q, B, hB, hfollow, hcollects, fun C hC => ⟨hlaying.laidOut hs hq hC,
      hlaying.collections_eq_nil hs hq hbelow hB hcollects hC⟩, fun n hn n' hn' hne => ?_⟩
    obtain hpair | hpair := pair_sublist hn hn' hne
    · exact hlaying.not_both_bound hs hq hB hcollects hpair
    · obtain ⟨r', r, hr', hr, hapart⟩ := hlaying.not_both_bound hs hq hB hcollects hpair
      exact ⟨r, r', hr, hr', fun data μ hμ => (hapart data μ hμ).symm⟩

end ExpandTree

namespace Sample

def shelf : EntityType where
  name := "Shelf"
  rdfClass := some "ex:Shelf"
  properties := [
    idProperty,
    { name := "Above", target := "Shelf", predicate := "ex:above", isOptional := true },
    { name := "AboveId", target := "Edm.Int32", predicate := "ex:aboveId", isOptional := true,
      foreignKeyOf := some "Above" },
    { name := "Books", target := "Thing", predicate := "ex:book", cardinality := .many },
    { name := "Below", target := "Shelf", predicate := "ex:above", cardinality := .many,
      inverseOf := some "Above" }]

def shelves : Schema where
  prefixes := [("ex", "http://example.org/"), ("rdf", Schema.rdfNamespace)]
  types := [thing, shelf]
  sets := [("Shelves", "Shelf")]

end Sample

/-- The shelf above a shelf, with its books and all the shelves below it. -/
theorem ExpandTree.compile_unions_sample :
    Sample.shelves.Accepted ∧ Sample.shelf ∈ Sample.shelves.types ∧
    ∃ pattern names q r r' B below below', ExpandTree.compile Sample.shelves Rule.builtin Sample.shelf
        (.cons "Above" (.cons "Below" .nil (.cons "Books" .nil .nil)) .nil) Reader.startingPosition.1
        Reader.startingPosition.2 = .ok (pattern, names) ∧
      names.follow Reader.startingPosition.1.place ["Above"] = some q ∧ names.related? q "Books" = some r ∧
      names.related? q "Below" = some r' ∧ B ∈ pattern.rootedAt q.var ∧
      B.collections = [.edge ⟨⟨"ex:book", false⟩, true, r.var⟩ below .nil,
        .edge ⟨⟨"ex:above", true⟩, true, r'.var⟩ below' .nil] ∧
      B.slots.length ≤ 1 ∧ B.conjuncts = [] ∧
      ∀ data, ∀ μ ∈ pattern.group.solutions data .empty, μ.get? r.var = none ∨ μ.get? r'.var = none := by
  have haccepted : Sample.shelves.Accepted :=
    ⟨[("ex", "http://example.org/")], [Sample.thing, Sample.shelf], [("Shelves", "Shelf")],
      by decide, by decide +kernel⟩
  have hT : Sample.shelf ∈ Sample.shelves.types := by decide
  have hpath : ExpandTree.Expands Sample.shelves Sample.shelf
      (.cons "Above" (.cons "Below" .nil (.cons "Books" .nil .nil)) .nil) ["Above"] Sample.shelf :=
    .navigation (p := Sample.shelf.properties.get ⟨1, by decide⟩) (by decide) rfl rfl rfl .here
  obtain ⟨pattern, names, hc⟩ : ∃ pattern names, ExpandTree.compile Sample.shelves Rule.builtin Sample.shelf
      (.cons "Above" (.cons "Below" .nil (.cons "Books" .nil .nil)) .nil) Reader.startingPosition.1
      Reader.startingPosition.2 = .ok (pattern, names) := exists_compile haccepted hT rfl _ _
  obtain ⟨q, B, hB, hfollow, hcollects, hrooted, hapart⟩ := (compile_unions haccepted hT hc).2 _ _ _ hpath rfl
  obtain ⟨r, r', hr, hr', hsolutions⟩ := hapart (Sample.shelf.properties.get ⟨3, by decide⟩) (by decide)
    (Sample.shelf.properties.get ⟨4, by decide⟩) (by decide) (by decide)
  obtain ⟨A, rest, ⟨hop, r₁, below, hh, hr₁, rfl⟩, hcollects, heq⟩ := List.forall₂_cons_left_iff.mp hcollects
  obtain ⟨A', _, ⟨hop', r₂, below', hh', hr₂, rfl⟩, hnil, rfl⟩ := List.forall₂_cons_left_iff.mp hcollects
  obtain rfl := List.forall₂_nil_left_iff.mp hnil
  obtain rfl := Option.some.inj (hr.symm.trans hr₁)
  obtain rfl := Option.some.inj (hr'.symm.trans hr₂)
  obtain rfl := Except.ok.inj hh
  obtain rfl := Except.ok.inj hh'
  have hlaidOut := (hrooted B hB).1
  exact ⟨haccepted, hT, pattern, names, q, r, r', B, below, below', hc, hfollow, hr, hr', hB, heq,
    hlaidOut.slots, hlaidOut.conjuncts, hsolutions⟩

end EntityGraph
