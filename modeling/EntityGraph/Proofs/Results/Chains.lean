import EntityGraph.Proofs.Expand.Anchored
import EntityGraph.Proofs.Read.Identified
import EntityGraph.Proofs.Results.Forest

/-!
# Rows along chains

A chain leads from a record of a forest down to a descendant. A row along a chain binds values of the
entities on the chain only. As a foreign key shares the variable of an identifier, such a row can say
more than it was made for: that there is the entity whose identifier the foreign key copies, next to
the chain. But that is so. What a row along a chain says of an entity, as far as the shape shows it, the
forest says too.
-/
namespace EntityGraph

/-- What the row binds to variables of the names are values on one chain of the forest. -/
def Row.Along (names : Naming) (root : Place) (forest : List Record) (row : Row) : Prop :=
  ∃ id chain, ∀ var text, (∃ q name, names.value? q name = some var) → row.bound? var = some text →
    ∃ path q name, path <+: chain ∧ names.follow root (path.map Prod.fst) = some q ∧
      names.value? q name = some var ∧ (path, some (name, text)) ∈ Record.facts forest id

namespace Shape

variable {names : Naming} {source : Nat → Option (Place × String)} {shape : Shape} {q : Place}

theorem Anchored.value (h : shape.Anchored names source q) {p : Property} (hp : p ∈ shape.values) :
    ∃ v, names.value? q p.name = some v ∧ ((p.foreignKeyOf = none ∧ names.Owns source q p.name v) ∨
      ∃ navigation r, p.foreignKeyOf = some navigation ∧ names.related? q navigation = some r ∧
        names.Owns source r idName v) := by
  induction shape with
  | nil => simp [values] at hp
  | value p' rest ih =>
      obtain rfl | hp := List.mem_cons.mp hp
      · exact h.1
      · exact ih h.2 hp
  | navigation p' t below rest _ ih => exact ih h.2 hp

theorem Anchored.navigation (h : shape.Anchored names source q) {navigation : Property × Shape}
    (hnavigation : navigation ∈ shape.navigations) :
    ∃ r, names.related? q navigation.1.name = some r ∧ (∃ v, names.Owns source r idName v) ∧
      navigation.2.Anchored names source r := by
  induction shape with
  | nil => simp [navigations] at hnavigation
  | value p rest ih => exact ih h.2 hnavigation
  | navigation p t below rest _ ih =>
      obtain rfl | hnavigation := List.mem_cons.mp hnavigation
      · exact h.1
      · exact ih h.2 hnavigation

theorem Anchored.readable (h : shape.Anchored names source q) (row : Row) : shape.Readable names row q := by
  induction shape generalizing q with
  | nil => trivial
  | value p rest ih =>
      obtain ⟨⟨v, hv, -⟩, hrest⟩ := h
      exact ⟨⟨v, hv⟩, ih hrest⟩
  | navigation p t below rest ihBelow ih =>
      obtain ⟨⟨r, hr, ⟨v, hv, -⟩, hbelow⟩, hrest⟩ := h
      exact ⟨⟨r, hr, ⟨v, hv⟩, fun _ _ => ihBelow hbelow⟩, ih hrest⟩

end Shape

/-- A record of a forest, with the place of its entity and the shape in which it is shown. -/
structure Station where
  shape : Shape
  record : Record
  place : Place

namespace Station

variable {names : Naming} {source : Nat → Option (Place × String)} {row : Row}
  {s s' s'' t : Station} {name id : String} {path path' chain : List (String × String)}

/-- From a record to a child of it. -/
structure Step (names : Naming) (s : Station) (name id : String) (s' : Station) : Prop where
  shown : ∃ navigation ∈ s.shape.navigations, navigation.1.name = name ∧ s'.shape = navigation.2
  child : s'.record ∈ s.record.children name
  identified : s'.record.text? idName = some id
  related : names.related? s.place name = some s'.place

inductive Leads (names : Naming) : Station → List (String × String) → Station → Prop
  | here {s : Station} : Leads names s [] s
  | down {s s' s'' : Station} {name id : String} {path : List (String × String)}
      (h : s.Step names name id s') (hs : Leads names s' path s'') :
      Leads names s ((name, id) :: path) s''

/-- The record is described by the shape, and what the shape shows is anchored at the place. -/
structure Good (names : Naming) (source : Nat → Option (Place × String)) (s : Station) : Prop where
  described : s.shape.Describes s.record
  anchored : s.shape.Anchored names source s.place
  distinct : s.shape.Distinct
  owns : ∃ v, names.Owns source s.place idName v

theorem Step.good (h : s.Step names name id s') (hs : s.Good names source) : s'.Good names source := by
  obtain ⟨⟨navigation, hnavigation, rfl, hshape⟩, hchild, -, hr⟩ := h
  obtain ⟨r, hr', howns, hanchored⟩ := hs.anchored.navigation hnavigation
  obtain rfl := Option.some.inj (hr.symm.trans hr')
  exact ⟨hshape ▸ hs.described.child hnavigation hchild, hshape ▸ hanchored,
    hshape ▸ Shape.distinct_below hs.distinct hnavigation, howns⟩

theorem Step.unique (h : s.Step names name id s') (h' : s.Step names name id s'') (hs : s.Good names source) :
    s' = s'' := by
  obtain ⟨⟨navigation, hnavigation, rfl, hshape⟩, hchild, hid, hr⟩ := h
  obtain ⟨⟨navigation', hnavigation', hname, hshape'⟩, hchild', hid', hr'⟩ := h'
  obtain rfl := Shape.navigation_unique hs.distinct hnavigation hnavigation' hname.symm
  have hrecord : s'.record = s''.record :=
    List.inj_on_of_nodup_map (hs.described.identified _).distinct hchild hchild' (hid.trans hid'.symm)
  have hplace : s'.place = s''.place := Option.some.inj (hr.symm.trans hr')
  obtain ⟨shape, record, place⟩ := s'
  obtain ⟨shape', record', place'⟩ := s''
  simp_all

theorem Leads.good (h : s.Leads names path s') (hs : s.Good names source) : s'.Good names source := by
  induction h with
  | here => exact hs
  | down h _ ih => exact ih (h.good hs)

theorem Leads.unique (h : s.Leads names path s') (h' : s.Leads names path s'') (hs : s.Good names source) :
    s' = s'' := by
  induction h with
  | here =>
      cases h' with
      | here => rfl
  | down h _ ih =>
      cases h' with
      | down h' hrest' =>
          obtain rfl := h.unique h' hs
          exact ih hrest' (h.good hs)

theorem Leads.concat (h : s.Leads names path s') (hstep : s'.Step names name id s'') :
    s.Leads names (path ++ [(name, id)]) s'' := by
  induction h with
  | here => exact .down hstep .here
  | down h _ ih => exact .down h (ih hstep)

theorem Leads.last (h : s.Leads names path s') (hne : path ≠ []) :
    ∃ before name id t, path = before ++ [(name, id)] ∧ s.Leads names before t ∧ t.Step names name id s' := by
  induction h with
  | here => exact absurd rfl hne
  | @down s t s' name id path h hrest ih =>
      cases hrest with
      | here => exact ⟨[], name, id, s, rfl, .here, h⟩
      | down h' hrest' =>
          obtain ⟨before, name', id', u, hpath, hbefore, hlast⟩ := ih (by simp)
          exact ⟨(name, id) :: before, name', id', u, by simp [hpath], .down h hbefore, hlast⟩

theorem exists_leads (hs : s.Good names source) {text : String}
    (h : s.record.Says path (some (name, text))) :
    ∃ s', s.Leads names path s' ∧ s'.record.text? name = some text ∧
      names.follow s.place (path.map Prod.fst) = some s'.place := by
  induction path generalizing s with
  | nil => exact ⟨s, .here, h, rfl⟩
  | cons step path ih =>
      obtain ⟨name', id'⟩ := step
      obtain ⟨child, hchild, hid, hsaid⟩ := h
      obtain ⟨navigation, hnavigation, rfl⟩ := hs.described.lays.exists_navigation hchild
      obtain ⟨r, hr, -, -⟩ := hs.anchored.navigation hnavigation
      have hstep : s.Step names navigation.1.name id' ⟨navigation.2, child, r⟩ :=
        ⟨⟨navigation, hnavigation, rfl, rfl⟩, hchild, hid, hr⟩
      obtain ⟨s', hleads, htext, hfollow⟩ := ih (s := ⟨navigation.2, child, r⟩) (hstep.good hs) hsaid
      exact ⟨s', .down hstep hleads, htext, by rw [List.map_cons, Naming.follow, hr]; exact hfollow⟩

section Along

/-- What the row binds to variables of the names are values on one chain from the station. -/
def Along (names : Naming) (row : Row) (s : Station) (chain : List (String × String)) : Prop :=
  ∀ var text, (∃ q name, names.value? q name = some var) → row.bound? var = some text →
    ∃ path t, path <+: chain ∧ s.Leads names path t ∧ ∃ p ∈ t.shape.values,
      names.value? t.place p.name = some var ∧ t.record.text? p.name = some text

/-- The chain comes to the place of the station, if at all, over the way that leads to the station. -/
def Only (names : Naming) (s : Station) (chain path : List (String × String)) (t : Station) : Prop :=
  ∀ path' t', path' <+: chain → s.Leads names path' t' → t'.place = t.place → path' = path

variable (hsource : names.Sourced source) (hs : s.Good names source) (hroot : source s.place.number = none)

include hsource

theorem Step.from_unique (h : s.Step names name id s') {r : Place} {name' : String} {q : Place}
    (hr : names.related? q name' = some r) (hplace : s'.place = r) : s.place = q ∧ name = name' :=
  hsource.related_unique h.related (hplace ▸ hr)

include hroot

theorem only_root (chain : List (String × String)) : Only names s chain [] s := by
  intro path' t' _ hleads hplace
  by_contra hne
  obtain ⟨before, name, id, u, -, -, hstep⟩ := hleads.last hne
  exact hsource.not_related hroot (hplace ▸ hstep.related)

include hs

/-- The identifier that a row along a chain binds at a child is one of a child. If it is bound for the
sake of a foreign key, the child need not be on the chain. -/
theorem step_of_identifies (halong : Along names row s chain) (ht : s.Leads names path t)
    (honly : Only names s chain path t) {navigation : Property × Shape}
    (hnavigation : navigation ∈ t.shape.navigations) {r : Place}
    (hr : names.related? t.place navigation.1.name = some r) (hid : row.Identifies names r id) :
    ∃ t', t.Step names navigation.1.name id t' ∧ t'.place = r ∧
      Only names s chain (path ++ [(navigation.1.name, id)]) t' := by
  have htgood := ht.good hs
  obtain ⟨r', hr', ⟨v, hv⟩, -⟩ := htgood.anchored.navigation hnavigation
  obtain rfl := Option.some.inj (hr.symm.trans hr')
  obtain ⟨var, hvar, hbound⟩ := hid
  obtain rfl := Option.some.inj (hv.1.symm.trans hvar)
  obtain ⟨before, u, hbefore, hu, p, hp, hpvar, htext⟩ := halong v id ⟨r, idName, hvar⟩ hbound
  have hugood := hu.good hs
  obtain ⟨v', hv', hown⟩ := hugood.anchored.value hp
  obtain rfl := Option.some.inj (hpvar.symm.trans hv')
  -- a way on the chain to the place of the child comes over this station
  have hcomes : ∀ before' u', before' <+: chain → s.Leads names before' u' → u'.place = r →
      ∃ id', before' = path ++ [(navigation.1.name, id')] ∧ t.Step names navigation.1.name id' u' := by
    intro before' u' hprefix hleads hplace
    have hne : before' ≠ [] := by
      rintro rfl
      cases hleads with
      | here => exact hsource.not_related hroot (hplace ▸ hr)
    obtain ⟨first, name', id', u'', rfl, hfirst, hstep⟩ := hleads.last hne
    obtain ⟨hplace', rfl⟩ := hstep.from_unique hsource hr hplace
    obtain rfl := honly first u'' ((List.prefix_append _ _).trans hprefix) hfirst hplace'
    obtain rfl := hfirst.unique ht hs
    exact ⟨id', rfl, hstep⟩
  obtain ⟨-, hown⟩ | ⟨navigation', r', hf, hr'', hown⟩ := hown
  · -- the child is on the chain
    obtain ⟨hplace, hname⟩ := hown.unique hv
    obtain ⟨id', rfl, hstep⟩ := hcomes before u hbefore hu hplace
    rw [hname, hstep.identified] at htext
    obtain rfl := Option.some.inj htext
    refine ⟨u, hstep, hplace, fun before' u' hprefix hleads hplace' => ?_⟩
    obtain ⟨id'', rfl, -⟩ := hcomes before' u' hprefix hleads (hplace'.trans hplace)
    exact (List.prefix_of_prefix_length_le hprefix hbefore (by simp)).eq_of_length (by simp)
  · -- the foreign key of this station is bound
    obtain ⟨rfl, -⟩ := hown.unique hv
    obtain ⟨hplace, hname⟩ := hsource.related_unique hr'' hr
    obtain rfl := honly before u hbefore hu hplace
    obtain rfl := hu.unique ht hs
    obtain ⟨hall, hnone⟩ := htgood.described.key hp hnavigation (hname ▸ hf)
    have hne : u.record.children navigation.1.name ≠ [] := by
      intro hnil
      simp [hnone hnil] at htext
    obtain ⟨child, hchild⟩ := List.exists_mem_of_ne_nil _ hne
    have hstep : u.Step names navigation.1.name id ⟨navigation.2, child, r'⟩ :=
      ⟨⟨navigation, hnavigation, rfl, rfl⟩, hchild, (hall child hchild).trans htext, hr⟩
    refine ⟨_, hstep, rfl, fun before' u' hprefix hleads hplace' => ?_⟩
    obtain ⟨id', rfl, hstep'⟩ := hcomes before' u' hprefix hleads hplace'
    have hsame : some id' = some id := by
      calc some id' = _ := hstep'.identified.symm
        _ = _ := hall _ hstep'.child
        _ = some id := htext
    rw [Option.some.inj hsame]

theorem text_of_bound (halong : Along names row s chain) (ht : s.Leads names path t)
    (honly : Only names s chain path t) (hid : row.Identifies names t.place id)
    (hidentified : t.record.text? idName = some id) {p : Property} (hp : p ∈ t.shape.values) {v text : String}
    (hv : names.value? t.place p.name = some v) (hbound : row.bound? v = some text) :
    t.record.text? p.name = some text := by
  by_cases hname : p.name = idName
  · obtain ⟨var, hvar, hidbound⟩ := hid
    rw [hname] at hv ⊢
    obtain rfl := Option.some.inj (hv.symm.trans hvar)
    rw [hidentified, ← hidbound, hbound]
  · have htgood := ht.good hs
    obtain ⟨before, u, hbefore, hu, p', hp', hpvar, htext⟩ := halong v text ⟨t.place, p.name, hv⟩ hbound
    have hugood := hu.good hs
    obtain ⟨v₁, hv₁, hown⟩ := htgood.anchored.value hp
    obtain rfl := Option.some.inj (hv.symm.trans hv₁)
    obtain ⟨v₂, hv₂, hown'⟩ := hugood.anchored.value hp'
    obtain rfl := Option.some.inj (hpvar.symm.trans hv₂)
    obtain ⟨-, hown⟩ | ⟨navigation, r, hf, hr, hown⟩ := hown
    · obtain ⟨-, hown'⟩ | ⟨navigation', r', -, -, hown'⟩ := hown'
      · obtain ⟨hplace, hsame⟩ := hown'.unique hown
        obtain rfl := honly before u hbefore hu hplace
        obtain rfl := hu.unique ht hs
        rw [← hsame, htext]
      · exact absurd (hown.unique hown').2 hname
    · obtain ⟨-, hown'⟩ | ⟨navigation', r', hf', hr', hown'⟩ := hown'
      · -- the child that the foreign key leads to is on the chain
        obtain ⟨hplace, hsame⟩ := hown'.unique hown
        have hne : before ≠ [] := by
          rintro rfl
          cases hu with
          | here => exact hsource.not_related hroot (hplace ▸ hr)
        obtain ⟨first, name', id', u', rfl, hfirst, hstep⟩ := hu.last hne
        obtain ⟨hplace', rfl⟩ := hstep.from_unique hsource hr hplace
        obtain rfl := honly first u' ((List.prefix_append _ _).trans hbefore) hfirst hplace'
        obtain rfl := hfirst.unique ht hs
        obtain ⟨⟨navigation, hnavigation, hnavigationName, -⟩, hchild, -, -⟩ := hstep
        obtain ⟨hall, -⟩ := htgood.described.key hp hnavigation (hnavigationName ▸ hf)
        rw [← hall u.record (hnavigationName ▸ hchild), ← hsame, htext]
      · -- another foreign key of the same property
        obtain ⟨rfl, -⟩ := hown'.unique hown
        obtain ⟨hplace, rfl⟩ := hsource.related_unique hr' hr
        obtain rfl := honly before u hbefore hu hplace
        obtain rfl := hu.unique ht hs
        rw [htgood.described.keys hp hp' hf hf', htext]

theorem says_of_along (halong : Along names row s chain) {fact : Option (String × String)}
    (ht : s.Leads names path t) (honly : Only names s chain path t) (hid : row.Identifies names t.place id)
    (hidentified : t.record.text? idName = some id) (hsaid : row.Says names t.place path' fact)
    (hadmits : t.shape.Admits path' fact) : t.record.Says path' fact := by
  induction path' generalizing path t id with
  | nil =>
      cases fact with
      | none => trivial
      | some value =>
          obtain ⟨name, text⟩ := value
          obtain ⟨p, hp, rfl⟩ := Shape.admits_value.mp hadmits
          obtain ⟨v, hv, hbound⟩ := hsaid
          exact text_of_bound hsource hs hroot halong ht honly hid hidentified hp hv hbound
  | cons step path' ih =>
      obtain ⟨name, id'⟩ := step
      obtain ⟨navigation, hnavigation, rfl, hbelow⟩ := Shape.admits_cons.mp hadmits
      obtain ⟨r, hr, hid', hsaid⟩ := hsaid
      obtain ⟨t', hstep, rfl, honly'⟩ :=
        step_of_identifies hsource hs hroot halong ht honly hnavigation hr hid'
      obtain ⟨navigation', hnavigation', hname, hshape⟩ := hstep.shown
      obtain rfl := Shape.navigation_unique (ht.good hs).distinct hnavigation' hnavigation hname
      exact ⟨t'.record, hstep.child, hstep.identified,
        ih (ht.concat hstep) honly' hid' hstep.identified hsaid (hshape ▸ hbelow)⟩

end Along
end Station

/-- What a row along a chain says of an entity, as far as the shape shows it, the forest says. -/
theorem Row.Along.toldOf_subset {names : Naming} {source : Nat → Option (Place × String)} {shape : Shape}
    {root : Place} {forest : List Record} {row : Row} (halong : row.Along names root forest)
    (hsource : names.Sourced source) (hroot : source root.number = none)
    (howns : ∃ v, names.Owns source root idName v) (hanchored : shape.Anchored names source root)
    (hd : shape.Distinct) (hidentified : Record.Identified forest)
    (hdescribes : ∀ record ∈ forest, shape.Describes record) (id : String) :
    Shape.toldOf names row shape root id ⊆ Record.facts forest id := by
  rintro ⟨path, fact⟩ ⟨hid, hsaid, hadmits⟩
  obtain ⟨idChain, chain, hvalues⟩ := halong
  obtain ⟨v, hv⟩ := howns
  obtain ⟨var, hvar, hbound⟩ := hid
  obtain rfl := Option.some.inj (hv.1.symm.trans hvar)
  -- the record at the top of the chain
  obtain ⟨-, -, -, -, -, -, record, hrecord, hidRecord, -⟩ := hvalues v id ⟨root, idName, hvar⟩ hbound
  have hs : Station.Good names source ⟨shape, record, root⟩ :=
    ⟨hdescribes record hrecord, hanchored, hd, ⟨v, hv⟩⟩
  have halong : Station.Along names row ⟨shape, record, root⟩ chain := by
    intro var text hname hbound
    obtain ⟨path, q, name, hpath, hfollow, hvar, record', hrecord', hidRecord', hsaid⟩ :=
      hvalues var text hname hbound
    obtain rfl : record' = record := List.inj_on_of_nodup_map hidentified.distinct hrecord' hrecord
      (hidRecord'.trans hidRecord.symm)
    obtain ⟨t, ht, htext, hplace⟩ := Station.exists_leads hs hsaid
    obtain rfl : q = t.place := Option.some.inj (hfollow.symm.trans hplace)
    obtain ⟨p, hp, rfl⟩ := (ht.good hs).described.lays.exists_value htext
    exact ⟨path, t, hpath, ht, p, hp, hvar, htext⟩
  have honly := Station.only_root (s := ⟨shape, record, root⟩) hsource hroot chain
  -- its identifier is the one that the row binds
  obtain ⟨before, u, hbefore, hu, p, hp, hpvar, htext⟩ := halong v id ⟨root, idName, hvar⟩ hbound
  obtain ⟨v', hv', hown⟩ := (hu.good hs).anchored.value hp
  obtain rfl := Option.some.inj (hpvar.symm.trans hv')
  obtain ⟨-, hown⟩ | ⟨navigation, r, -, hr, hown⟩ := hown
  · obtain ⟨hplace, hname⟩ := hown.unique hv
    obtain rfl := honly before u hbefore hu hplace
    obtain rfl := hu.unique .here hs
    rw [hname] at htext
    exact ⟨record, hrecord, htext, Station.says_of_along hsource hs hroot halong .here honly
      ⟨v, hvar, hbound⟩ htext hsaid hadmits⟩
  · obtain ⟨rfl, -⟩ := hown.unique hv
    exact absurd hr (hsource.not_related hroot)

end EntityGraph
