import EntityGraph.Proofs.Pattern.Exclusive
import EntityGraph.Proofs.Read.Displayed

/-!
# Where the entities of a read are

An entity of a read has an address, the path of navigation properties that leads to it, and a type that the
schema gives to the path. Every name is made up once, so that the address is known from the number of the
variable, and variables of values have none.

All that is read is seated: edges at an entity itself lead to its values, the slot leads to values and to
single related entities, and each alternative beside it is the optional edge of an expanded collection. An
entity of a collection is led to by one edge in the whole pattern.
-/
namespace EntityGraph

def Naming.addresses : Naming.Labelling (Option (List String)) where
  related a name := a.map (· ++ [name])
  value _ _ := none
  foreignKey _ _ _ := rfl

/-- The type of the entities that a path leads to from entities of a type. -/
def Schema.typeAt? (schema : Schema) (T : EntityType) (path : List String) : Option EntityType :=
  path.foldl schema.kinds.related (some T)

/-- The entity is at the end of a path from entities of the type `root`. -/
structure Place.Located (schema : Schema) (root : EntityType)
    (address : Nat → Option (List String)) (q : Place) (path : List String) (T : EntityType) : Prop where
  address : address q.number = some path
  type : schema.typeAt? root path = some T
  declared : T ∈ schema.types

namespace Place.Located

variable {schema : Schema} {root T T' t : EntityType} {address : Nat → Option (List String)} {names : Naming}
  {q q' r : Place} {path path' : List String} {n n' : Property}

theorem unique (h : q.Located schema root address path T) (h' : q.Located schema root address path' T') :
    path = path' ∧ T = T' := by
  obtain rfl := Option.some.inj (h.address.symm.trans h'.address)
  exact ⟨rfl, Option.some.inj (h.type.symm.trans h'.type)⟩

theorem of_var_eq (h : q.Located schema root address path T) (h' : q'.Located schema root address path' T')
    (hvar : q.var = q'.var) : q = q' ∧ path = path' ∧ T = T' := by
  obtain rfl : q = q' := congrArg Place.mk (variableName_injective hvar)
  exact ⟨rfl, h.unique h'⟩

theorem related (hs : schema.Accepted) (haddress : names.Labelled Naming.addresses address)
    (h : q.Located schema root address path T) (hn : n ∈ T.properties) (he : n.isElementary = false)
    (ht : schema.targetType n = .ok t) (hr : names.related? q n.name = some r) :
    r.Located schema root address (path ++ [n.name]) t where
  address := by
    rw [(haddress.related hr).2.2, h.address]
    rfl
  type := by
    have hpath : path.foldl schema.kinds.related (some root) = some T := h.type
    rw [Schema.typeAt?, List.foldl_append, hpath]
    exact hs.kinds_related h.declared hn ht
  declared := by
    obtain ⟨t', ht', htarget⟩ := hs.targetType h.declared hn he
    exact Except.ok.inj (ht.symm.trans htarget) ▸ ht'

theorem ne_value (haddress : names.Labelled Naming.addresses address)
    (h : q.Located schema root address path T)
    {name v : String} (hv : names.value? q' name = some v) : v ≠ q.var := by
  rintro rfl
  obtain ⟨k, hk, -, -, hnone⟩ := haddress.value hv
  rw [← variableName_injective hk, h.address] at hnone
  simp [Naming.addresses] at hnone

theorem related_inj (hs : schema.Accepted) (haddress : names.Labelled Naming.addresses address)
    (h : q.Located schema root address path T) (h' : q'.Located schema root address path' T')
    (hn : n ∈ T.properties) (hn' : n' ∈ T'.properties) (hr : names.related? q n.name = some r)
    (hr' : names.related? q' n'.name = some r) : n = n' := by
  have haddresses := (haddress.related hr).2.2.symm.trans (haddress.related hr').2.2
  rw [h.address, h'.address] at haddresses
  obtain ⟨rfl, hname⟩ : path = path' ∧ n.name = n'.name := by simpa [Naming.addresses] using haddresses
  obtain rfl := Option.some.inj (h.type.symm.trans h'.type)
  have hlookup := hs.property? h'.declared hn'
  rw [← hname, hs.property? h.declared hn] at hlookup
  exact Option.some.inj hlookup

end Place.Located

def Naming.ToValue (names : Naming) (q : Place) (T : EntityType) (e : Edge) : Prop :=
  ∃ p ∈ T.properties, p.isElementary = true ∧ names.value? q p.name = some e.target

/-- The edge is one of a navigation property of the entity. -/
structure Naming.ToRelated (schema : Schema) (names : Naming) (q : Place) (T : EntityType) (n : Property)
    (e : Edge) : Prop where
  declared : n ∈ T.properties
  complex : n.isElementary = false
  hop : schema.hop n = .ok e.hop
  related : ∃ r, names.related? q n.name = some r ∧ e.target = r.var

def Naming.Seats (schema : Schema) (names : Naming) (expand : ExpandTree) (q : Place) (path : List String)
    (T : EntityType) (e : Edge) : Body.Seat → Prop
  | .own => names.ToValue q T e
  | .slot => names.ToValue q T e ∨ ∃ n, n.isSingle = true ∧ names.ToRelated schema q T n e
  | .collection => e.isOptional = true ∧ ∃ n, n.isSingle = false ∧ names.ToRelated schema q T n e ∧
      (expand.below? (path ++ [n.name])).isSome

def Body.seats (schema : Schema) (root : EntityType) (address : Nat → Option (List String)) (names : Naming)
    (expand : ExpandTree) (seat : Body.Seat) (v : String) (e : Edge) : Prop :=
  ∃ q path T, v = q.var ∧ q.Located schema root address path T ∧ names.Seats schema expand q path T e seat

theorem exists_sublist_of_forall₂ {α β : Type} {R : α → β → Prop} {l l₀ : List α} {m : List β}
    (h : List.Forall₂ R l m) (hl : l₀.Sublist l) : ∃ m₀, m₀.Sublist m ∧ List.Forall₂ R l₀ m₀ := by
  induction hl generalizing m with
  | slnil => exact ⟨[], List.nil_sublist m, .nil⟩
  | cons a _ ih =>
      cases h with
      | cons _ hrest =>
          obtain ⟨m₀, hm₀, hmatch⟩ := ih hrest
          exact ⟨m₀, hm₀.cons _, hmatch⟩
  | cons_cons a _ ih =>
      cases h with
      | cons hhere hrest =>
          obtain ⟨m₀, hm₀, hmatch⟩ := ih hrest
          exact ⟨_, hm₀.cons_cons _, .cons hhere hmatch⟩

namespace Body.Displays

variable {schema : Schema} {root T : EntityType} {address : Nat → Option (List String)} {names : Naming}
  {whole expand : ExpandTree} {q : Place} {path : List String} {ps : List Property} {B : Body} {v : String}

theorem seated (hs : schema.Accepted) (haddress : names.Labelled Naming.addresses address)
    (h : B.Displays schema names expand T q ps) (hq : q.Located schema root address path T)
    (hbelow : whole.below? path = some expand) :
    B.Seated (Body.seats schema root address names whole) .own q.var := by
  induction h generalizing path with
  | nil => trivial
  | @value expand T q p ps body e hp he hv _ ih =>
      exact .merge ⟨⟨q, path, T, rfl, hq, p, hp, he, hv⟩, trivial, trivial⟩ (ih hq hbelow)
  | @slotValue expand T q p ps body e hp he hv _ ih =>
      exact .merge ⟨⟨rfl, ⟨⟨q, path, T, rfl, hq, Or.inl ⟨p, hp, he, hv⟩⟩, trivial, trivial⟩,
        by simp⟩, trivial⟩ (ih hq hbelow)
  | @foreignKey expand T t q r p n ps body hop isOptional id _ hn he hsingle ht hh hr hv _ ih =>
      have hthere := hq.related hs haddress hn he ht hr
      obtain ⟨i, hi, hname, -, hvalue, -⟩ := hs.id hthere.declared
      have hid : names.ToValue r t id := ⟨i, hi, hvalue, hname ▸ hv⟩
      refine .merge ⟨⟨rfl, ⟨?_, ⟨⟨r, _, t, rfl, hthere, hid⟩, trivial, trivial⟩, trivial⟩, by simp⟩, trivial⟩
        (ih hq hbelow)
      exact ⟨q, path, T, rfl, hq, Or.inr ⟨n, hsingle, hn, he, hh, r, hr, rfl⟩⟩
  | skip _ _ _ ih => exact ih hq hbelow
  | @navigation expand sub T t q r p ps inner body hop hp he hc ht hh hr _ _ ihInner ih =>
      have hsub : whole.below? (path ++ [p.name]) = some sub :=
        by rw [ExpandTree.below?_concat, hbelow]; exact hc
      have hinner := ihInner (hq.related hs haddress hp he ht hr) hsub
      refine .merge ⟨⟨rfl, ⟨?_, hinner, trivial⟩, fun _ => ⟨_, _, rfl⟩⟩, trivial⟩ (ih hq hbelow)
      refine ⟨q, path, T, rfl, hq, ?_⟩
      cases hsingle : p.isSingle with
      | true => exact Or.inr ⟨p, hsingle, hp, he, hh, r, hr, rfl⟩
      | false => exact ⟨by simp, p, hsingle, ⟨hp, he, hh, r, hr, rfl⟩, by simp [hsub]⟩

/-- Edges lead to values, to entities over a foreign key, and to what is shown of the properties. -/
theorem of_mem_targets (hs : schema.Accepted) (haddress : names.Labelled Naming.addresses address)
    (h : B.Displays schema names expand T q ps) (hq : q.Located schema root address path T)
    {shown : Set String} (hps : ∀ p ∈ ps, p.name ∈ shown) (hv : v ∈ B.targets) :
    (∃ q' name, names.value? q' name = some v) ∨
    ∃ r name suffix t, v = r.var ∧ names.follow q (name :: suffix) = some r ∧
      r.Located schema root address (path ++ name :: suffix) t ∧
      ((∃ n ∈ T.properties, n.isSingle = true ∧ names.related? q n.name = some r) ∨ name ∈ shown) := by
  induction h generalizing path shown with
  | nil => simp [Body.targets] at hv
  | @value _ _ q p _ _ e _ _ hvalue _ ih =>
      obtain hv | hv := mem_targets_of_merge hv
      · obtain rfl : v = e.target := by simpa [Body.targets] using hv
        exact Or.inl ⟨q, p.name, hvalue⟩
      · exact ih hq (List.forall_mem_cons.mp hps).2 hv
  | @slotValue _ _ q p _ _ e _ _ hvalue _ ih =>
      obtain hv | hv := mem_targets_of_merge hv
      · obtain rfl : v = e.target := by simpa [Body.targets] using hv
        exact Or.inl ⟨q, p.name, hvalue⟩
      · exact ih hq (List.forall_mem_cons.mp hps).2 hv
  | @foreignKey _ _ t _ r _ n _ _ _ _ id _ hn he hsingle ht _ hr hvalue _ ih =>
      obtain hv | hv := mem_targets_of_merge hv
      · obtain rfl | rfl : v = r.var ∨ v = id.target := by simpa [Body.targets] using hv
        · exact Or.inr ⟨r, n.name, [], t, rfl,
            by simp [Naming.follow, hr], hq.related hs haddress hn he ht hr, Or.inl ⟨n, hn, hsingle, hr⟩⟩
        · exact Or.inl ⟨r, idName, hvalue⟩
      · exact ih hq (List.forall_mem_cons.mp hps).2 hv
  | skip _ _ _ ih => exact ih hq (List.forall_mem_cons.mp hps).2 hv
  | @navigation _ _ _ t _ r p _ inner _ _ hp he _ ht _ hr _ _ ihInner ih =>
      obtain ⟨hshown, hps⟩ := List.forall_mem_cons.mp hps
      have hthere := hq.related hs haddress hp he ht hr
      obtain hv | hv := mem_targets_of_merge hv
      · obtain rfl | hv : v = r.var ∨ v ∈ inner.targets := by simpa [Body.targets] using hv
        · exact Or.inr ⟨r, p.name, [], t, rfl, by simp [Naming.follow, hr], hthere, Or.inr hshown⟩
        · obtain hvalue | ⟨r', name, suffix, t', rfl, hfollow, hlocated, -⟩ :=
            ihInner hthere (fun _ _ => Set.mem_univ _) hv
          · exact Or.inl hvalue
          · refine Or.inr ⟨r', p.name, name :: suffix, t', rfl, ?_, by simpa using hlocated, Or.inr hshown⟩
            rw [Naming.follow, hr]
            exact hfollow
      · exact ih hq hps hv

section Once

variable {q₀ r : Place} {path₀ : List String} {T₀ : EntityType} {n : Property}

theorem address_of_collection (hs : schema.Accepted) (haddress : names.Labelled Naming.addresses address)
    (h : B.Displays schema names expand T q ps) (hq : q.Located schema root address path T)
    {shown : Set String} (hps : ∀ p ∈ ps, p.name ∈ shown)
    (hq₀ : q₀.Located schema root address path₀ T₀) (hn : n ∈ T₀.properties)
    (hmany : n.isSingle = false) (hr : names.related? q₀ n.name = some r) (hmem : r.var ∈ B.targets) :
    ∃ name suffix, name ∈ shown ∧ address r.number = some (path ++ name :: suffix) := by
  have he : n.isElementary = false := (Bool.or_eq_false_iff.mp hmany).1
  obtain ⟨t, -, ht⟩ := hs.targetType hq₀.declared hn he
  have hthere := hq₀.related hs haddress hn he ht hr
  obtain ⟨q', name, hv⟩ | ⟨r', name, suffix, t, hvar, -, hlocated, hshown⟩ :=
    h.of_mem_targets hs haddress hq hps hmem
  · exact absurd rfl (hthere.ne_value haddress hv)
  · obtain ⟨rfl, -⟩ := hthere.of_var_eq hlocated hvar
    obtain ⟨n', hn', hsingle, hr'⟩ | hshown := hshown
    · obtain rfl := hq.related_inj hs haddress hq₀ hn' hn hr' hr
      simp [hmany] at hsingle
    · exact ⟨name, suffix, hshown, hlocated.address⟩

theorem count_targets_le (hs : schema.Accepted) (haddress : names.Labelled Naming.addresses address)
    (h : B.Displays schema names expand T q ps) (hq : q.Located schema root address path T)
    (hps : (ps.map (·.name)).Nodup) (hq₀ : q₀.Located schema root address path₀ T₀) (hn : n ∈ T₀.properties)
    (hmany : n.isSingle = false) (hr : names.related? q₀ n.name = some r) : B.targets.count r.var ≤ 1 := by
  have he : n.isElementary = false := (Bool.or_eq_false_iff.mp hmany).1
  obtain ⟨t, -, ht⟩ := hs.targetType hq₀.declared hn he
  have hthere := hq₀.related hs haddress hn he ht hr
  -- a part that does not lead there
  have hskip : ∀ {H B : Body}, r.var ∉ H.targets → B.targets.count r.var ≤ 1 →
      (H.merge B).targets.count r.var ≤ 1 := by
    intro H B hH hB
    have hcount := count_merge_le H B r.var
    rw [List.count_eq_zero_of_not_mem hH] at hcount
    omega
  induction h generalizing path with
  | nil => simp [Body.targets]
  | value _ _ hvalue _ ih =>
      refine hskip ?_ (ih hq (List.nodup_cons.mp hps).2)
      simpa [Body.targets] using (hthere.ne_value haddress hvalue).symm
  | slotValue _ _ hvalue _ ih =>
      refine hskip ?_ (ih hq (List.nodup_cons.mp hps).2)
      simpa [Body.targets] using (hthere.ne_value haddress hvalue).symm
  | @foreignKey _ _ _ _ r' _ n' _ _ _ _ _ _ hn' _ hsingle _ _ hr' hvalue _ ih =>
      refine hskip ?_ (ih hq (List.nodup_cons.mp hps).2)
      have hne : r.var ≠ r'.var := by
        intro hvar
        obtain rfl : r = r' := congrArg Place.mk (variableName_injective hvar)
        obtain rfl := hq.related_inj hs haddress hq₀ hn' hn hr' hr
        simp [hmany] at hsingle
      simpa [Body.targets] using ⟨hne, (hthere.ne_value haddress hvalue).symm⟩
  | skip _ _ _ ih => exact ih hq (List.nodup_cons.mp hps).2
  | @navigation _ _ _ t' _ r' p ps inner body hop hp he' _ ht' _ hr' hinner hbody ihInner ih =>
      obtain ⟨hfresh, hps⟩ := List.nodup_cons.mp hps
      have hnext := hq.related hs haddress hp he' ht' hr'
      have hinside := fun hmem => hinner.address_of_collection hs haddress hnext
        (fun _ _ => Set.mem_univ _) hq₀ hn hmany hr hmem
      have hhead : (r'.var :: inner.targets).count r.var ≤ 1 := by
        by_cases hvar : r'.var = r.var
        · obtain ⟨rfl, -⟩ := hnext.of_var_eq hthere hvar
          have hnone : r'.var ∉ inner.targets := by
            intro hmem
            obtain ⟨name, suffix, -, hlonger⟩ := hinside hmem
            simp [hnext.address] at hlonger
          rw [List.count_cons_self, List.count_eq_zero_of_not_mem hnone]
        · rw [List.count_cons_of_ne hvar]
          exact ihInner hnext (hs.checks.1 t' hnext.declared).2
      have hcount := count_merge_le (Body.alternative p.isSingle
        (.edge ⟨hop, !(p.isSingle && p.isMandatory), r'.var⟩ inner .nil) .nil) body r.var
      simp only [Body.targets, List.append_nil] at hcount
      by_cases hmem : r.var ∈ body.targets
      · -- the path goes over another property
        have hnone : r.var ∉ r'.var :: inner.targets := by
          have hnames : ∀ p ∈ ps, p.name ∈ {name | name ∈ ps.map (·.name)} := fun p hp =>
            List.mem_map_of_mem (f := (·.name)) hp
          obtain ⟨name, suffix, hname, hother⟩ :=
            hbody.address_of_collection hs haddress hq hnames hq₀ hn hmany hr hmem
          intro hmem
          obtain hvar | hmem := List.mem_cons.mp hmem
          · obtain ⟨rfl, -⟩ := hthere.of_var_eq hnext hvar
            rw [hnext.address] at hother
            obtain ⟨rfl, -⟩ : p.name = name ∧ [] = suffix := by simpa using hother
            exact hfresh hname
          · obtain ⟨name', suffix', -, haddress'⟩ := hinside hmem
            rw [haddress'] at hother
            obtain ⟨rfl, -⟩ : p.name = name ∧ name' :: suffix' = suffix := by simpa using hother
            exact hfresh hname
        rw [List.count_eq_zero_of_not_mem hnone] at hcount
        exact hcount.trans (by simpa using ih hq hps)
      · rw [List.count_eq_zero_of_not_mem hmem] at hcount
        exact hcount.trans hhead

end Once

section Walk

variable {t : EntityType} {sub : ExpandTree} {n : Property}

/-- An expanded property that has one value is an edge of the slot, and the alternatives below the edge are
those of what is shown of the related entity. -/
theorem single (haddress : names.Labelled Naming.addresses address)
    (h : B.Displays schema names expand T q ps)
    (hq : address q.number = some path) (hps : (ps.map (·.name)).Nodup) (hn : n ∈ ps)
    (he : n.isElementary = false)
    (hsingle : n.isSingle = true) (hc : expand.child? n.name = some sub) (ht : schema.targetType n = .ok t) :
    ∃ r e, ∃ inner : Body, names.related? q n.name = some r ∧
      inner.Displays schema names sub t r t.properties ∧
      e.target = r.var ∧ e ∈ B.slot.edges.map Prod.fst ∧ (B.slot.behind e).tagged = inner.tagged := by
  -- properties with different names lead to different entities
  have hapart : ∀ {name r r'}, names.related? q n.name = some r → names.related? q name = some r' →
    name ≠ n.name →
      r.var ≠ r'.var := by
    intro name r r' hr hr' hne hvar
    obtain rfl : r = r' := congrArg Place.mk (variableName_injective hvar)
    have hsame := (haddress.related hr).2.2.symm.trans (haddress.related hr').2.2
    simp [hq, Naming.addresses, hne.symm] at hsame
  induction ps generalizing B with
  | nil => simp at hn
  | cons p ps ih =>
      obtain ⟨hfresh, hps⟩ := List.nodup_cons.mp hps
      have hfresh : ∀ p' ∈ ps, p'.name ≠ p.name := fun p' hp' heq => hfresh (List.mem_map.mpr ⟨p', hp', heq⟩)
      obtain rfl | hn := List.mem_cons.mp hn
      · cases h with
        | value _ he' _ _ => simp [he] at he'
        | slotValue _ he' _ _ => simp [he] at he'
        | foreignKey he' _ _ _ _ _ _ _ _ => simp [he] at he'
        | skip _ hnone _ => simp [hc] at hnone
        | @navigation _ _ _ _ _ r _ _ inner body hop _ _ hc' ht' _ hr hinner hrest =>
            obtain rfl := Option.some.inj (hc.symm.trans hc')
            obtain rfl := Except.ok.inj (ht.symm.trans ht')
            have hothers : (body.slot.behind ⟨hop, !(n.isSingle && n.isMandatory), r.var⟩).tagged = [] :=
              hrest.tagged_behind_slot fun p hp r' hr' => hapart hr hr' (hfresh p hp)
            refine ⟨r, ⟨hop, !(n.isSingle && n.isMandatory), r.var⟩, inner, hr, hinner, rfl, ?_, ?_⟩
            · rw [slot_merge _ hrest.neat.tidy, hsingle]
              exact mem_map_edges_of_within (within_merge_left _ _) (by simp [Body.slot, Body.edges])
            · rw [behind_slot_merge _ hrest.neat, tagged_merge_left _ hothers, hsingle]
              simp [Body.slot, Body.behind]
      · obtain ⟨H, D, rfl, hD, hH⟩ := h.uncons
        obtain ⟨r, e, inner, hr, hinner, htarget, hedge, htagged⟩ := ih hD hps hn
        have hnone := hH e fun r' hr' => htarget ▸ hapart hr hr' (hfresh n hn).symm
        refine ⟨r, e, inner, hr, hinner, htarget, ?_, ?_⟩
        · rw [slot_merge _ hD.neat.tidy]
          exact mem_map_edges_of_within (within_merge_right _ _) hedge
        · rw [behind_slot_merge _ hD.neat, tagged_merge_right hnone (hD.neat.slot.behind e), htagged]

/-- Below an edge to the entity that an expanded property leads to there are the alternatives of what is
shown of it. -/
theorem step (hs : schema.Accepted) (haddress : names.Labelled Naming.addresses address)
    (h : B.Displays schema names expand T q T.properties) (hq : q.Located schema root address path T)
    (hn : n ∈ T.properties) (he : n.isElementary = false) (hc : expand.child? n.name = some sub)
    (ht : schema.targetType n = .ok t) {M : Body} (hM : M.tagged = B.tagged) :
    ∃ r e, ∃ A ∈ M.alternatives, ∃ below inner : Body, names.related? q n.name = some r ∧
      inner.Displays schema names sub t r t.properties ∧ e.target = r.var ∧ (e, below) ∈ A.edges ∧
      below.tagged = inner.tagged := by
  cases hmany : n.isSingle with
  | true =>
      obtain ⟨r, e, inner, hr, hinner, htarget, hedge, htagged⟩ :=
        h.single haddress hq.address (hs.checks.1 T hq.declared).2 hn he hmany hc ht
      rw [← slot_of_tagged hM] at hedge htagged
      have hmem := mem_edges_behind hedge
      exact ⟨r, e, M.slot, mem_alternatives_slot hmem, M.slot.behind e, inner, hr, hinner, htarget,
        hmem, htagged⟩
  | false =>
      have hlisted : [n].Sublist (expand.collections T.properties) :=
        List.singleton_sublist.mpr (List.mem_filter.mpr ⟨hn, by simp [hmany, hc]⟩)
      obtain ⟨_, hsub, hmatch⟩ := exists_sublist_of_forall₂ (collections_of_tagged hM ▸ h.collections) hlisted
      obtain ⟨A, rest, ⟨hop, r, t', sub', inner, -, ht', hc', hr, hinner, rfl⟩, -, rfl⟩ :=
        List.forall₂_cons_left_iff.mp hmatch
      obtain rfl := Option.some.inj (hc.symm.trans hc')
      obtain rfl := Except.ok.inj (ht.symm.trans ht')
      exact ⟨r, _, _, M.collections_sublist.subset (hsub.subset List.mem_cons_self), inner, inner,
        hr, hinner, rfl, List.mem_cons_self, rfl⟩

/-- The entity at the end of a path of expanded properties: the alternatives of what hangs there are those of
what is shown of it. -/
theorem walk (hs : schema.Accepted) (haddress : names.Labelled Naming.addresses address) {steps : List String}
    (hpath : expand.Expands schema T steps t) (h : B.Displays schema names expand T q T.properties)
    (hq : q.Located schema root address path T) (hbelow : expand.below? steps = some sub) {M : Body}
    (hM : M.tagged = B.tagged) :
    ∃ q', ∃ B' C : Body, names.follow q steps = some q' ∧ q'.Located schema root address (path ++ steps) t ∧
      B'.Displays schema names sub t q' t.properties ∧ C.tagged = B'.tagged ∧
      (q = q' ∧ M = C ∨ C ∈ M.rootedAt q'.var) := by
  induction hpath generalizing q B M path with
  | here =>
      obtain rfl := Option.some.inj hbelow
      exact ⟨q, B, M, rfl, by simpa using hq, h, hM, Or.inl ⟨rfl, rfl⟩⟩
  | @navigation T t t' expand sub' n steps hn he hc ht _ ih =>
      obtain ⟨r, e, A, hA, below, inner, hr, hinner, htarget, hedge, htagged⟩ :=
        h.step hs haddress hq hn he hc ht hM
      obtain ⟨q', B', C, hfollow, hlocated, hB', hC, hrooted⟩ :=
        ih hinner (hq.related hs haddress hn he ht hr) (by simpa [ExpandTree.below?, hc] using hbelow) htagged
      refine ⟨q', B', C, by simp [Naming.follow, hr, hfollow], by simpa using hlocated, hB', hC, Or.inr ?_⟩
      refine rootedAt_of_mem_alternatives hA C ?_
      obtain ⟨rfl, rfl⟩ | hrooted := hrooted
      · exact (rootedAt_of_mem_edges hedge).1 htarget
      · exact (rootedAt_of_mem_edges hedge).2 C hrooted

end Walk

end Body.Displays
end EntityGraph
