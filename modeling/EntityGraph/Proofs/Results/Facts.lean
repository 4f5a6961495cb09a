import EntityGraph.Proofs.Results.Grouped

/-!
# What rows say

A row says facts about an entity: over navigation properties and identifiers it leads to a related
entity, and there it may give the text of a value. A shape admits the facts that it shows. Rows that
are folded into a collection without an error leave in it exactly the facts that some of them says
and the shape admits. So what the collection says depends on the set of the rows only.

Whether folding succeeds is a question about these facts too: the rows must be readable, that is, the
variables that they ask for must be there, and all of them together may neither give two texts for one
value nor two entities over a single-valued navigation property.
-/
namespace EntityGraph

/-- What is said of an entity. A fact leads over navigation properties to related entities of given
identifiers; it says that there is such an entity, or that it has a value. -/
abbrev Facts := Set (List (String × String) × Option (String × String))

namespace Facts

/-- What is said of the related entity of an identifier. -/
def under (name id : String) (facts : Facts) : Facts :=
  {fact | ((name, id) :: fact.1, fact.2) ∈ facts}

def Agreeing (facts : Facts) : Prop :=
  ∀ ⦃path name text text'⦄, (path, some (name, text)) ∈ facts → (path, some (name, text')) ∈ facts →
    text = text'

theorem Agreeing.under {facts : Facts} (h : facts.Agreeing) (name id : String) :
    (facts.under name id).Agreeing :=
  fun _ _ _ _ htext htext' => h htext htext'

theorem Agreeing.mono {facts facts' : Facts} (h : facts'.Agreeing) (hsub : facts ⊆ facts') :
    facts.Agreeing :=
  fun _ _ _ _ htext htext' => h (hsub htext) (hsub htext')

end Facts

namespace Entity

@[grind =] def Says : List (String × String) → Option (String × String) → Entity → Prop
  | [], none, _ => True
  | [], some (name, text), entity => entity.value? name = some text
  | (name, id) :: path, fact, entity =>
    ∃ child, (entity.items name).get? id = some child ∧ child.Says path fact

def facts (entity : Entity) : Facts := {fact | entity.Says fact.1 fact.2}

/-- At no level two related entities have the same identifier. -/
inductive Tidy : Entity → Prop
  | intro {entity : Entity} (nodup : ∀ name, (entity.items name).ids.Nodup)
      (below : ∀ name id child, (entity.items name).get? id = some child → child.Tidy) : entity.Tidy

theorem Tidy.nodup {entity : Entity} (h : entity.Tidy) (name : String) :
    (entity.items name).ids.Nodup := by
  cases h with
  | intro nodup _ => exact nodup name

theorem Tidy.related {entity child : Entity} (h : entity.Tidy) {name id : String}
    (hchild : (entity.items name).get? id = some child) : child.Tidy := by
  cases h with
  | intro _ below => exact below name id child hchild

theorem tidy_nil : nil.Tidy := by
  apply Tidy.intro
  · intro name
    simp [items, items?, Collection.ids, Collection.toList]
  · intro name id child hchild
    simp [items, items?, Collection.get?] at hchild

variable {entity : Entity} {name text : String}

theorem exists_mem_facts : ([], none) ∈ entity.facts := by
  simp [facts, Says]

theorem value_mem_facts : ([], some (name, text)) ∈ entity.facts ↔ entity.value? name = some text := by
  simp [facts, Says]

theorem mem_facts_nil {fact : List (String × String) × Option (String × String)} :
    fact ∈ nil.facts ↔ fact = ([], none) := by
  obtain ⟨_ | ⟨⟨name, id⟩, path⟩, _ | ⟨name, text⟩⟩ := fact
  · simp [facts, Says]
  · simp [facts, Says, value?]
  · simp [facts, Says, items, items?, Collection.get?]
  · simp [facts, Says, items, items?, Collection.get?]

theorem agreeing_facts (entity : Entity) : entity.facts.Agreeing := by
  intro path name text text' h h'
  induction path generalizing entity with
  | nil => exact Option.some.inj ((value_mem_facts.mp h).symm.trans (value_mem_facts.mp h'))
  | cons step path ih =>
      obtain ⟨child, hget, hchild⟩ := h
      obtain ⟨child', hget', hchild'⟩ := h'
      obtain rfl := Option.some.inj (hget.symm.trans hget')
      exact ih child hchild hchild'

theorem conflict?_of_agreeing {bound : Facts} (hagree : bound.Agreeing) (hentity : entity.facts ⊆ bound)
    (htext : ([], some (name, text)) ∈ bound) : entity.conflict? name text = none := by
  cases hvalue : entity.value? name with
  | none => simp [conflict?, hvalue]
  | some kept =>
      have hkept : kept = text := hagree (hentity (value_mem_facts.mpr hvalue)) htext
      simp [conflict?, hvalue, hkept]

theorem items_setValue (name text other : String) (entity : Entity) :
    (entity.setValue name text).items other = entity.items other := by
  rw [items, items, items?_setValue]

theorem items_setItems (name other : String) (items : Collection) (entity : Entity) :
    (entity.setItems name items).items other = if other = name then items else entity.items other := by
  rw [Entity.items, items?_setItems]
  split
  · rfl
  · rfl

theorem Tidy.setValue (h : entity.Tidy) (name text : String) : (entity.setValue name text).Tidy := by
  apply Tidy.intro
  · intro other
    rw [items_setValue]
    exact h.nodup other
  · intro other id child hchild
    rw [items_setValue] at hchild
    exact h.related hchild

theorem mem_facts_setValue (hc : entity.conflict? name text = none)
    {fact : List (String × String) × Option (String × String)} :
    fact ∈ (entity.setValue name text).facts ↔
      fact ∈ entity.facts ∨ fact = ([], some (name, text)) := by
  obtain ⟨_ | ⟨⟨step, id⟩, path⟩, value⟩ := fact
  · obtain _ | ⟨other, text'⟩ := value
    · simp [exists_mem_facts]
    · rw [value_mem_facts, value_mem_facts, value?_setValue]
      by_cases hother : other = name
      · subst hother
        cases hvalue : entity.value? other with
        | none => simp [eq_comm]
        | some kept =>
            obtain rfl : kept = text := by simpa [conflict?, hvalue] using hc
            simp [eq_comm]
      · simp [hother]
  · simp [facts, Says, items_setValue]

end Entity

namespace Collection

variable {coll coll' : Collection} {id : String} {entity : Entity}

def facts (coll : Collection) (id : String) : Facts :=
  {fact | ∃ entity, coll.get? id = some entity ∧ fact ∈ entity.facts}

/-- Neither here nor below two entities have the same identifier. -/
structure Tidy (coll : Collection) : Prop where
  nodup : coll.ids.Nodup
  below : ∀ {id entity}, coll.get? id = some entity → entity.Tidy

theorem tidy_nil : nil.Tidy :=
  ⟨by simp [ids, toList], by simp [get?]⟩

theorem tidy_items (h : entity.Tidy) (name : String) : (entity.items name).Tidy :=
  ⟨h.nodup name, h.related⟩

theorem facts_eq (h : coll.get? id = some entity) : coll.facts id = entity.facts := by
  simp [facts, h]

theorem agreeing_facts (coll : Collection) (id : String) : (coll.facts id).Agreeing := by
  cases hget : coll.get? id with
  | none => simp [facts, hget, Facts.Agreeing]
  | some entity => exact facts_eq hget ▸ entity.agreeing_facts

theorem mem_facts_getD {fact : List (String × String) × Option (String × String)} :
    fact ∈ ((coll.get? id).getD .nil).facts ↔ fact ∈ coll.facts id ∨ fact = ([], none) := by
  cases hget : coll.get? id with
  | none => simp [facts, hget, Entity.mem_facts_nil]
  | some entity =>
      rw [facts_eq hget, Option.getD_some]
      exact (or_iff_left_of_imp fun h => h ▸ Entity.exists_mem_facts).symm

theorem mem_ids_iff : id ∈ coll.ids ↔ ([], none) ∈ coll.facts id := by
  rw [← not_iff_not, ← get?_eq_none]
  cases hget : coll.get? id with
  | none => simp [facts, hget]
  | some entity => simp [facts, hget, Entity.exists_mem_facts]

theorem exists_get? (h : id ∈ coll.ids) : ∃ entity, coll.get? id = some entity := by
  obtain ⟨entity, hget, -⟩ := mem_ids_iff.mp h
  exact ⟨entity, hget⟩

theorem facts_items (entity : Entity) (name id : String) :
    (entity.items name).facts id = entity.facts.under name id := rfl

theorem nodup_seen {ids : List String} (h : ids.Nodup) (id : String) : (seen id ids).Nodup := by
  unfold seen
  by_cases hmem : id ∈ ids
  · simpa [hmem] using h
  · rw [if_neg hmem]
    exact List.nodup_append.mpr ⟨h, by simp, by simpa using fun a ha (heq : a = id) => hmem (heq ▸ ha)⟩

theorem eq_of_length_ids (h : coll.ids.length ≤ 1) {id id' : String} (hid : id ∈ coll.ids)
    (hid' : id' ∈ coll.ids) : id = id' := by
  rcases hids : coll.ids with _ | ⟨first, _ | ⟨second, more⟩⟩
  · simp [hids] at hid
  · simp only [hids, List.mem_singleton] at hid hid'
    rw [hid, hid']
  · simp [hids] at h

theorem Tidy.length_ids (h : coll.Tidy) (hall : ∀ id ∈ coll.ids, ∀ id' ∈ coll.ids, id = id') :
    coll.ids.length ≤ 1 := by
  have hnodup := h.nodup
  rcases hids : coll.ids with _ | ⟨first, _ | ⟨second, more⟩⟩
  · simp
  · simp
  · have hsame : first = second := hall first (by simp [hids]) second (by simp [hids])
    simp [hids, hsame] at hnodup

/-- What is known of the entity of an identifier, before it is changed. -/
theorem Tidy.getD (h : coll.Tidy) (id : String) : ((coll.get? id).getD .nil).Tidy := by
  cases hget : coll.get? id with
  | none => exact Entity.tidy_nil
  | some entity => exact h.below hget

theorem update_spec {ε : Type} {f : Entity → Except ε Entity} (h : coll.update id f = .ok coll') :
    ∃ entity, f ((coll.get? id).getD .nil) = .ok entity ∧ coll'.ids = seen id coll.ids ∧
      coll'.get? id = some entity ∧ ∀ other, other ≠ id → coll'.get? other = coll.get? other := by
  obtain ⟨entity, hentity⟩ := Shape.update_eq_ok h
  obtain ⟨coll'', hupdate, hids, hget, hothers⟩ := update_ok hentity
  obtain rfl := Except.ok.inj (h.symm.trans hupdate)
  exact ⟨entity, hentity, hids, hget, hothers⟩

theorem Tidy.update {ε : Type} {f : Entity → Except ε Entity} (h : coll.Tidy)
    (hok : coll.update id f = .ok coll')
    (hf : ∀ {entity entity'}, entity.Tidy → f entity = .ok entity' → entity'.Tidy) : coll'.Tidy := by
  obtain ⟨entity, hentity, hids, hget, hothers⟩ := update_spec hok
  constructor
  · rw [hids]
    exact nodup_seen h.nodup id
  · intro other child hchild
    by_cases hother : other = id
    · subst hother
      obtain rfl := Option.some.inj (hget.symm.trans hchild)
      exact hf (h.getD other) hentity
    · rw [hothers other hother] at hchild
      exact h.below hchild

end Collection

theorem Entity.Tidy.setItems {entity : Entity} (h : entity.Tidy) {items : Collection} (hitems : items.Tidy)
    (name : String) : (entity.setItems name items).Tidy := by
  apply Entity.Tidy.intro
  · intro other
    rw [Entity.items_setItems]
    split
    · exact hitems.nodup
    · exact h.nodup other
  · intro other id child hchild
    rw [Entity.items_setItems] at hchild
    split at hchild
    · exact hitems.below hchild
    · exact h.related hchild

namespace Row

variable {names : Naming}

def Identifies (names : Naming) (row : Row) (q : Place) (id : String) : Prop :=
  ∃ var, names.value? q idName = some var ∧ row.bound? var = some id

@[grind =] def Says (names : Naming) (row : Row) :
    Place → List (String × String) → Option (String × String) → Prop
  | _, [], none => True
  | q, [], some (name, text) => ∃ var, names.value? q name = some var ∧ row.bound? var = some text
  | q, (name, id) :: path, fact =>
    ∃ r, names.related? q name = some r ∧ row.Identifies names r id ∧ Says names row r path fact

def facts (names : Naming) (row : Row) (q : Place) : Facts := {fact | row.Says names q fact.1 fact.2}

theorem Identifies.unique {row : Row} {q : Place} {id id' : String} (h : row.Identifies names q id)
    (h' : row.Identifies names q id') : id = id' := by
  obtain ⟨var, hvar, hid⟩ := h
  obtain ⟨var', hvar', hid'⟩ := h'
  obtain rfl := Option.some.inj (hvar.symm.trans hvar')
  exact Option.some.inj (hid.symm.trans hid')

end Row

namespace Shape

variable {names : Naming} {row : Row} {q : Place} {shape : Shape} {type id : String}

@[grind =] def Admits : Shape → List (String × String) → Option (String × String) → Prop
  | nil, path, fact => path = [] ∧ fact = none
  | value p rest, path, fact => (path = [] ∧ ∃ text, fact = some (p.name, text)) ∨ rest.Admits path fact
  | navigation p _ below rest, path, fact =>
    (∃ id path', path = (p.name, id) :: path' ∧ below.Admits path' fact) ∨ rest.Admits path fact

/-- What a row says of the entity at a place, as far as a shape shows it. -/
def told (names : Naming) (row : Row) (shape : Shape) (q : Place) : Facts :=
  {fact | fact ∈ row.facts names q ∧ shape.Admits fact.1 fact.2}

/-- What a row says of the entity of an identifier, if that is the one at the place. -/
def toldOf (names : Naming) (row : Row) (shape : Shape) (q : Place) (id : String) : Facts :=
  {fact | row.Identifies names q id ∧ fact ∈ told names row shape q}

theorem admits_exists (shape : Shape) : shape.Admits [] none := by
  induction shape with
  | nil => exact ⟨rfl, rfl⟩
  | value p rest ih => exact Or.inr ih
  | navigation p t below rest _ ih => exact Or.inr ih

theorem exists_mem_told : ([], none) ∈ told names row shape q :=
  ⟨trivial, shape.admits_exists⟩

/-- Over a single-valued navigation property there is at most one entity. -/
@[grind =] def Sole : Shape → Facts → Prop
  | nil, _ => True
  | value _ rest, facts => rest.Sole facts
  | navigation p _ below rest, facts =>
    (p.isSingle = true → ∀ id id', ([(p.name, id)], none) ∈ facts → ([(p.name, id')], none) ∈ facts →
      id = id') ∧ (∀ id, below.Sole (facts.under p.name id)) ∧ rest.Sole facts

theorem Sole.mono {facts facts' : Facts} (h : shape.Sole facts') (hsub : facts ⊆ facts') :
    shape.Sole facts := by
  induction shape generalizing facts facts' with
  | nil => trivial
  | value p rest ih => exact ih h hsub
  | navigation p t below rest ihBelow ih =>
      obtain ⟨hone, hbelow, hrest⟩ := h
      refine ⟨fun hs id id' hid hid' => ?_, fun id => ?_, ih hrest hsub⟩
      · exact hone hs id id' (hsub hid) (hsub hid')
      · exact ihBelow (hbelow id) fun fact hfact => hsub hfact

theorem sole_empty (shape : Shape) : shape.Sole ∅ := by
  induction shape with
  | nil => trivial
  | value p rest ih => exact ih
  | navigation p t below rest ihBelow ih =>
      exact ⟨fun _ _ _ h => h.elim, fun _ => ihBelow.mono fun _ h => h, ih⟩

/-- Everything the row asks for has a variable. -/
def Readable (names : Naming) (row : Row) : Shape → Place → Prop
  | nil, _ => True
  | value p rest, q => (∃ var, names.value? q p.name = some var) ∧ rest.Readable names row q
  | navigation p _ below rest, q =>
    (∃ r, names.related? q p.name = some r ∧ (∃ var, names.value? r idName = some var) ∧
      ∀ id, row.Identifies names r id → below.Readable names row r) ∧
    rest.Readable names row q

section Route

variable {fill : String → Entity → Except DecodeError Entity} {coll coll' : Collection}

theorem route_spec (h : route names row type q fill coll = .ok coll') :
    (∃ var, names.value? q idName = some var) ∧
      ((∀ id, ¬ row.Identifies names q id) ∧ coll' = coll ∨
        ∃ id, row.Identifies names q id ∧ coll.update id (fill id) = .ok coll') := by
  unfold route at h
  split at h
  · simp at h
  · next var hvar =>
      refine ⟨⟨var, hvar⟩, ?_⟩
      split at h
      · next hunbound =>
          refine Or.inl ⟨?_, (Except.ok.inj h).symm⟩
          rintro id ⟨var', hvar', hid⟩
          obtain rfl := Option.some.inj (hvar.symm.trans hvar')
          simp [hunbound] at hid
      · next id hid => exact Or.inr ⟨id, ⟨var, hvar, hid⟩, h⟩

theorem route_of_not_identifies {var : String} (hvar : names.value? q idName = some var)
    (h : ∀ id, ¬ row.Identifies names q id) : route names row type q fill coll = .ok coll := by
  have hunbound : row.bound? var = none := by
    rw [Option.eq_none_iff_forall_ne_some]
    exact fun id hid => h id ⟨var, hvar, hid⟩
  simp [route, hvar, hunbound]

theorem route_of_identifies (h : row.Identifies names q id) :
    route names row type q fill coll = coll.update id (fill id) := by
  obtain ⟨var, hvar, hid⟩ := h
  simp [route, hvar, hid]

theorem tidy_route (h : coll.Tidy)
    (hok : Shape.route names row type q fill coll = .ok coll')
    (hfill : ∀ {id entity entity'}, entity.Tidy → fill id entity = .ok entity' → entity'.Tidy) :
    coll'.Tidy := by
  obtain ⟨-, ⟨-, rfl⟩ | ⟨id, -, hupdate⟩⟩ := route_spec hok
  · exact h
  · exact h.update hupdate hfill

theorem facts_route {added : Facts} (hadded : ([], none) ∈ added)
    (hok : route names row type q fill coll = .ok coll')
    (hfill : ∀ {id entity entity'}, fill id entity = .ok entity' →
      ∀ fact, fact ∈ entity'.facts ↔ fact ∈ entity.facts ∨ fact ∈ added)
    (id : String) (fact : List (String × String) × Option (String × String)) :
    fact ∈ coll'.facts id ↔ fact ∈ coll.facts id ∨ row.Identifies names q id ∧ fact ∈ added := by
  obtain ⟨-, ⟨hnone, rfl⟩ | ⟨id', hid', hupdate⟩⟩ := route_spec hok
  · simp [hnone id]
  · obtain ⟨entity, hentity, -, hget, hothers⟩ := Collection.update_spec hupdate
    by_cases hid : id = id'
    · subst hid
      rw [Collection.facts_eq hget, hfill hentity, Collection.mem_facts_getD, and_iff_right hid', or_assoc]
      exact or_congr_right (or_iff_right_of_imp fun h => h ▸ hadded)
    · have hnot : ¬ row.Identifies names q id := fun h => hid (h.unique hid')
      simp [Collection.facts, hothers id hid, hnot]

end Route

section Fill

variable {p : Property} {t : EntityType} {below rest : Shape} {entity entity' : Entity}

theorem mem_told_value {fact : List (String × String) × Option (String × String)} :
    fact ∈ told names row (value p rest) q ↔
      (∃ var text, names.value? q p.name = some var ∧ row.bound? var = some text ∧
        fact = ([], some (p.name, text))) ∨ fact ∈ told names row rest q := by
  constructor
  · rintro ⟨hsaid, ⟨hpath, text, htext⟩ | hadmits⟩
    · obtain rfl : fact = ([], some (p.name, text)) := Prod.ext hpath htext
      obtain ⟨var, hvar, hbound⟩ := hsaid
      exact Or.inl ⟨var, text, hvar, hbound, rfl⟩
    · exact Or.inr ⟨hsaid, hadmits⟩
  · rintro (⟨var, text, hvar, hbound, rfl⟩ | ⟨hsaid, hadmits⟩)
    · exact ⟨⟨var, hvar, hbound⟩, Or.inl ⟨rfl, text, rfl⟩⟩
    · exact ⟨hsaid, Or.inr hadmits⟩

theorem mem_told_navigation {fact : List (String × String) × Option (String × String)} :
    fact ∈ told names row (navigation p t below rest) q ↔
      (∃ r id path, names.related? q p.name = some r ∧ row.Identifies names r id ∧
        (path, fact.2) ∈ told names row below r ∧ fact.1 = (p.name, id) :: path) ∨
      fact ∈ told names row rest q := by
  obtain ⟨path, said⟩ := fact
  constructor
  · rintro ⟨hsaid, ⟨id, path', hpath, hadmits⟩ | hadmits⟩
    · obtain rfl : path = (p.name, id) :: path' := hpath
      obtain ⟨r, hr, hid, hbelow⟩ := hsaid
      exact Or.inl ⟨r, id, path', hr, hid, ⟨hbelow, hadmits⟩, rfl⟩
    · exact Or.inr ⟨hsaid, hadmits⟩
  · rintro (⟨r, id, path', hr, hid, ⟨hbelow, hadmits⟩, hpath⟩ | ⟨hsaid, hadmits⟩)
    · obtain rfl : path = (p.name, id) :: path' := hpath
      exact ⟨⟨r, hr, hid, hbelow⟩, Or.inl ⟨id, path', rfl, hadmits⟩⟩
    · exact ⟨hsaid, Or.inr hadmits⟩

theorem fill_value_iff : (value p rest).fill names row type q id entity = .ok entity' ↔
    ∃ var, names.value? q p.name = some var ∧
      ((row.bound? var = none ∧ rest.fill names row type q id entity = .ok entity') ∨
        ∃ text, row.bound? var = some text ∧ entity.conflict? p.name text = none ∧
          rest.fill names row type q id (entity.setValue p.name text) = .ok entity') := by
  rw [fill]
  cases names.value? q p.name with
  | none => simp
  | some var =>
      cases hb : row.bound? var with
      | none => simp [hb]
      | some text =>
          cases hc : entity.conflict? p.name text with
          | none => simp [hb, hc]
          | some first => simp [hb, hc]

theorem fill_navigation_iff :
    (navigation p t below rest).fill names row type q id entity = .ok entity' ↔
      ∃ r items, names.related? q p.name = some r ∧
        route names row t.name r (fun id entity => below.fill names row t.name r id entity)
          (entity.items p.name) = .ok items ∧
        (p.isSingle = true → items.ids.length ≤ 1) ∧
        rest.fill names row type q id (entity.setItems p.name items) = .ok entity' := by
  rw [fill]
  cases names.related? q p.name with
  | none => simp
  | some r =>
      cases hroute : route names row t.name r (fun id entity => below.fill names row t.name r id entity)
        (entity.items p.name) with
      | error e => simp [hroute, bind, Except.bind]
      | ok items =>
          simp only [hroute, bind, Except.bind, Option.some.injEq, Except.ok.injEq, exists_and_left,
            exists_eq_left']
          cases p.isSingle with
          | false => simp
          | true =>
              rcases items.ids with _ | ⟨first, _ | ⟨second, more⟩⟩
              · simp
              · simp
              · simp

theorem tidy_fill (hok : shape.fill names row type q id entity = .ok entity') (h : entity.Tidy) :
    entity'.Tidy := by
  induction shape generalizing type q id entity entity' with
  | nil =>
      obtain rfl : entity = entity' := Except.ok.inj hok
      exact h
  | value p rest ih =>
      obtain ⟨var, -, ⟨-, hrest⟩ | ⟨text, -, -, hrest⟩⟩ := fill_value_iff.mp hok
      · exact ih hrest h
      · exact ih hrest (h.setValue p.name text)
  | navigation p t below rest ihBelow ih =>
      obtain ⟨r, items, -, hroute, -, hrest⟩ := fill_navigation_iff.mp hok
      apply ih hrest
      apply h.setItems
      exact tidy_route (Collection.tidy_items h p.name) hroute fun hentity hfill => ihBelow hfill hentity

theorem mem_facts_setItems {items : Collection} {name : String} {added : String → Facts}
    (hitems : ∀ id fact, fact ∈ items.facts id ↔ fact ∈ (entity.items name).facts id ∨ fact ∈ added id)
    {fact : List (String × String) × Option (String × String)} :
    fact ∈ (entity.setItems name items).facts ↔ fact ∈ entity.facts ∨
      ∃ id path, fact.1 = (name, id) :: path ∧ (path, fact.2) ∈ added id := by
  obtain ⟨_ | ⟨⟨step, id⟩, path⟩, said⟩ := fact
  · obtain _ | ⟨other, text⟩ := said
    · simp [Entity.exists_mem_facts]
    · simp [Entity.value_mem_facts, Entity.value?_setItems]
  · have hsplit : ((step, id) :: path, said) ∈ (entity.setItems name items).facts ↔
        (path, said) ∈ ((entity.setItems name items).items step).facts id := Iff.rfl
    have hsplit' : ((step, id) :: path, said) ∈ entity.facts ↔
        (path, said) ∈ (entity.items step).facts id := Iff.rfl
    rw [hsplit, hsplit', Entity.items_setItems]
    by_cases hstep : step = name
    · subst hstep
      simp [hitems]
    · simp [hstep]

theorem facts_fill (hok : shape.fill names row type q id entity = .ok entity')
    (fact : List (String × String) × Option (String × String)) :
    fact ∈ entity'.facts ↔ fact ∈ entity.facts ∨ fact ∈ told names row shape q := by
  induction shape generalizing type q id entity entity' fact with
  | nil =>
      obtain rfl : entity = entity' := Except.ok.inj hok
      refine (or_iff_left_of_imp ?_).symm
      rintro ⟨-, hpath, hsaid⟩
      obtain rfl : fact = ([], none) := Prod.ext hpath hsaid
      exact Entity.exists_mem_facts
  | value p rest ih =>
      obtain ⟨var, hvar, hvalue⟩ := fill_value_iff.mp hok
      rw [mem_told_value]
      obtain ⟨hunbound, hrest⟩ | ⟨text, hbound, hconflict, hrest⟩ := hvalue
      · rw [ih hrest]
        simp [hvar, hunbound]
      · rw [ih hrest, Entity.mem_facts_setValue hconflict, or_assoc]
        simp [hvar, hbound]
  | navigation p t below rest ihBelow ih =>
      obtain ⟨r, items, hr, hroute, -, hrest⟩ := fill_navigation_iff.mp hok
      have hitems : ∀ id fact, fact ∈ items.facts id ↔
          fact ∈ (entity.items p.name).facts id ∨ fact ∈ toldOf names row below r id :=
        facts_route exists_mem_told hroute fun hfill fact => ihBelow hfill fact
      rw [mem_told_navigation, ih hrest, mem_facts_setItems hitems, or_assoc]
      refine or_congr_right (or_congr_left ⟨?_, ?_⟩)
      · rintro ⟨id, path, hpath, hid, htold⟩
        exact ⟨r, id, path, hr, hid, htold, hpath⟩
      · rintro ⟨r', id, path, hr', hid, htold, hpath⟩
        obtain rfl := Option.some.inj (hr.symm.trans hr')
        exact ⟨id, path, hpath, hid, htold⟩

theorem facts_route_fill {coll coll' : Collection}
    (hok : route names row type q (fun id entity => shape.fill names row type q id entity) coll = .ok coll')
    (id : String) (fact : List (String × String) × Option (String × String)) :
    fact ∈ coll'.facts id ↔ fact ∈ coll.facts id ∨ fact ∈ toldOf names row shape q id :=
  facts_route exists_mem_told hok (fun hfill fact => facts_fill hfill fact) id fact

theorem readable_of_fill (hok : shape.fill names row type q id entity = .ok entity') :
    shape.Readable names row q := by
  induction shape generalizing type q id entity entity' with
  | nil => trivial
  | value p rest ih =>
      obtain ⟨var, hvar, ⟨-, hrest⟩ | ⟨text, -, -, hrest⟩⟩ := fill_value_iff.mp hok
      · exact ⟨⟨var, hvar⟩, ih hrest⟩
      · exact ⟨⟨var, hvar⟩, ih hrest⟩
  | navigation p t below rest ihBelow ih =>
      obtain ⟨r, items, hr, hroute, -, hrest⟩ := fill_navigation_iff.mp hok
      obtain ⟨hvar, hnone | ⟨id, hid, hupdate⟩⟩ := route_spec hroute
      · exact ⟨⟨r, hr, hvar, fun id hid => absurd hid (hnone.1 id)⟩, ih hrest⟩
      · obtain ⟨child, hchild, -⟩ := Collection.update_spec hupdate
        exact ⟨⟨r, hr, hvar, fun _ _ => ihBelow hchild⟩, ih hrest⟩

end Fill

section Single

/-- Nothing more is found over a single-valued navigation property, if what is added is said by a row
that has been recorded. -/
theorem Sole.of_recorded {before after : Facts} (h : shape.Sole before)
    (hrecorded : told names row shape q ⊆ before)
    (hafter : ∀ fact ∈ after, fact ∈ before ∨ fact ∈ row.facts names q) : shape.Sole after := by
  induction shape generalizing q before after with
  | nil => trivial
  | value p rest ih =>
      exact ih h (fun fact hfact => hrecorded (mem_told_value.mpr (Or.inr hfact))) hafter
  | navigation p t below rest ihBelow ih =>
      obtain ⟨hone, hbelow, hrest⟩ := h
      have hfound : ∀ {r id path said}, names.related? q p.name = some r → row.Identifies names r id →
          (path, said) ∈ told names row below r → ((p.name, id) :: path, said) ∈ before :=
        fun hr hid htold => hrecorded (mem_told_navigation.mpr (Or.inl ⟨_, _, _, hr, hid, htold, rfl⟩))
      have hknown : ∀ id, ([(p.name, id)], none) ∈ after → ([(p.name, id)], none) ∈ before := by
        intro id hid
        obtain hid | ⟨r, hr, hid, -⟩ := hafter _ hid
        · exact hid
        · exact hfound hr hid exists_mem_told
      refine ⟨fun hs id id' hid hid' => hone hs id id' (hknown id hid) (hknown id' hid'), fun id => ?_, ?_⟩
      · by_cases hrow : ∃ r, names.related? q p.name = some r ∧ row.Identifies names r id
        · obtain ⟨r, hr, hid⟩ := hrow
          apply ihBelow (hbelow id) fun fact hfact => hfound hr hid hfact
          intro fact hfact
          obtain hfact | ⟨r', hr', -, hsaid⟩ := hafter _ hfact
          · exact Or.inl hfact
          · obtain rfl := Option.some.inj (hr.symm.trans hr')
            exact Or.inr hsaid
        · apply (hbelow id).mono
          intro fact hfact
          obtain hfact | ⟨r, hr, hid, -⟩ := hafter _ hfact
          · exact hfact
          · exact absurd ⟨r, hr, hid⟩ hrow
      · exact ih hrest (fun fact hfact => hrecorded (mem_told_navigation.mpr (Or.inr hfact))) hafter

/-- Routing a row keeps what is related to every entity single, if recording it does, and if only
the row itself says more than what was single before. -/
theorem sole_route {fill : String → Entity → Except DecodeError Entity} {coll coll' : Collection}
    {before : String → Facts} (hok : route names row type q fill coll = .ok coll')
    (h : ∀ id, shape.Sole (before id))
    (hcoll : ∀ id, ∀ fact ∈ coll.facts id,
      fact ∈ before id ∨ row.Identifies names q id ∧ fact ∈ row.facts names q)
    (hfill : ∀ {id entity entity' before}, fill id entity = .ok entity' → shape.Sole before →
      (∀ fact ∈ entity.facts, fact ∈ before ∨ fact ∈ row.facts names q) → shape.Sole entity'.facts)
    (id : String) : shape.Sole (coll'.facts id) := by
  have hother : ¬ row.Identifies names q id → shape.Sole (coll.facts id) := by
    intro hid
    apply (h id).mono
    intro fact hfact
    obtain hfact | ⟨hid', -⟩ := hcoll id fact hfact
    · exact hfact
    · exact absurd hid' hid
  obtain ⟨-, ⟨hnone, rfl⟩ | ⟨id', hid', hupdate⟩⟩ := route_spec hok
  · exact hother (hnone id)
  · obtain ⟨entity, hentity, -, hget, hothers⟩ := Collection.update_spec hupdate
    by_cases hid : id = id'
    · subst hid
      rw [Collection.facts_eq hget]
      apply hfill hentity (h id)
      intro fact hfact
      obtain hfact | rfl := Collection.mem_facts_getD.mp hfact
      · exact (hcoll id fact hfact).imp_right And.right
      · exact Or.inr trivial
    · have hsame : coll'.facts id = coll.facts id := by simp [Collection.facts, hothers id hid]
      rw [hsame]
      exact hother fun h => hid (h.unique hid')

variable {entity entity' : Entity}

/-- Recording a row leaves at most one entity over a single-valued navigation property, if only the
row itself says more than what was single before. -/
theorem sole_fill {before : Facts} (hok : shape.fill names row type q id entity = .ok entity')
    (h : shape.Sole before)
    (hentity : ∀ fact ∈ entity.facts, fact ∈ before ∨ fact ∈ row.facts names q) :
    shape.Sole entity'.facts := by
  induction shape generalizing type q id entity entity' before with
  | nil => trivial
  | value p rest ih =>
      obtain ⟨var, hvar, ⟨-, hrest⟩ | ⟨text, hbound, hconflict, hrest⟩⟩ := fill_value_iff.mp hok
      · exact ih hrest h hentity
      · apply ih hrest h
        intro fact hfact
        obtain hfact | rfl := (Entity.mem_facts_setValue hconflict).mp hfact
        · exact hentity fact hfact
        · exact Or.inr ⟨var, hvar, hbound⟩
  | navigation p t below rest ihBelow ih =>
      obtain ⟨hone, hbelow, hrestSole⟩ := h
      obtain ⟨r, items, hr, hroute, hlength, hrest⟩ := fill_navigation_iff.mp hok
      have hset := fun fact => @mem_facts_setItems _ _ _ _ (facts_route_fill hroute) fact
      have hunder : ∀ id, (entity.setItems p.name items).facts.under p.name id = items.facts id := by
        intro id
        rw [← Collection.facts_items, Entity.items_setItems, if_pos rfl]
      -- the entities related so far; what is recorded after them says nothing new of them
      have hsole : (navigation p t below nil).Sole (entity.setItems p.name items).facts := by
        refine ⟨fun hs id id' hid hid' => ?_, fun id => ?_, trivial⟩
        · exact Collection.eq_of_length_ids (hlength hs) (Collection.mem_ids_iff.mpr (hunder id ▸ hid))
            (Collection.mem_ids_iff.mpr (hunder id' ▸ hid'))
        · rw [hunder]
          refine sole_route hroute hbelow (fun id fact hfact => ?_)
            (fun hfill hsole hentity => ihBelow hfill hsole hentity) id
          obtain hfact | ⟨r', hr', hid, hsaid⟩ := hentity ((p.name, id) :: fact.1, fact.2) hfact
          · exact Or.inl hfact
          · obtain rfl := Option.some.inj (hr.symm.trans hr')
            exact Or.inr ⟨hid, hsaid⟩
      have hrecorded : told names row (navigation p t below nil) q ⊆
        (entity.setItems p.name items).facts := by
        rintro ⟨path, said⟩ htold
        obtain ⟨r', id, path', hr', hid, htold, hpath⟩ | ⟨-, hpath, hsaid⟩ := mem_told_navigation.mp htold
        · obtain rfl := Option.some.inj (hr.symm.trans hr')
          exact (hset _).mpr (Or.inr ⟨id, path', hpath, hid, htold⟩)
        · obtain ⟨rfl, rfl⟩ : path = [] ∧ said = none := ⟨hpath, hsaid⟩
          exact Entity.exists_mem_facts
      obtain ⟨hone', hbelow', -⟩ := hsole.of_recorded hrecorded fun fact hfact =>
        ((facts_fill hrest fact).mp hfact).imp_right And.left
      refine ⟨hone', hbelow', ih hrest hrestSole fun fact hfact => ?_⟩
      obtain hfact | ⟨id, path, hpath, hid, htold⟩ := (hset fact).mp hfact
      · exact hentity fact hfact
      · obtain ⟨_, said⟩ := fact
        obtain rfl := hpath
        exact Or.inr ⟨r, hr, hid, htold.1⟩

end Single

section Success

theorem route_ok {fill : String → Entity → Except DecodeError Entity} {coll : Collection} {var : String}
    (hvar : names.value? q idName = some var)
    (hfill : ∀ id, row.Identifies names q id →
      ∃ entity, fill id ((coll.get? id).getD .nil) = .ok entity) :
    ∃ coll', route names row type q fill coll = .ok coll' := by
  by_cases hid : ∃ id, row.Identifies names q id
  · obtain ⟨id, hid⟩ := hid
    obtain ⟨entity, hentity⟩ := hfill id hid
    obtain ⟨coll', hupdate, -⟩ := Collection.update_ok hentity
    exact ⟨coll', (route_of_identifies hid).trans hupdate⟩
  · exact ⟨coll, route_of_not_identifies hvar fun id h => hid ⟨id, h⟩⟩

theorem fill_ok {bound : Facts} {entity : Entity} (hread : shape.Readable names row q)
    (hagree : bound.Agreeing) (hsole : shape.Sole bound) (htidy : entity.Tidy)
    (hentity : entity.facts ⊆ bound) (hrow : told names row shape q ⊆ bound) (type id : String) :
    ∃ entity', shape.fill names row type q id entity = .ok entity' := by
  induction shape generalizing type q id entity bound with
  | nil => exact ⟨entity, rfl⟩
  | value p rest ih =>
      obtain ⟨⟨var, hvar⟩, hrest⟩ := hread
      have hrow' : told names row rest q ⊆ bound := fun fact h => hrow (mem_told_value.mpr (Or.inr h))
      cases hbound : row.bound? var with
      | none =>
          obtain ⟨entity', hfill⟩ := ih hrest hagree hsole htidy hentity hrow' type id
          exact ⟨entity', fill_value_iff.mpr ⟨var, hvar, Or.inl ⟨hbound, hfill⟩⟩⟩
      | some text =>
          have htext : ([], some (p.name, text)) ∈ bound :=
            hrow (mem_told_value.mpr (Or.inl ⟨var, text, hvar, hbound, rfl⟩))
          have hconflict := Entity.conflict?_of_agreeing hagree hentity htext
          have hentity' : (entity.setValue p.name text).facts ⊆ bound := by
            intro fact hfact
            obtain hfact | rfl := (Entity.mem_facts_setValue hconflict).mp hfact
            · exact hentity hfact
            · exact htext
          obtain ⟨entity', hfill⟩ :=
            ih hrest hagree hsole (htidy.setValue p.name text) hentity' hrow' type id
          exact ⟨entity', fill_value_iff.mpr ⟨var, hvar, Or.inr ⟨text, hbound, hconflict, hfill⟩⟩⟩
  | navigation p t below rest ihBelow ih =>
      obtain ⟨⟨r, hr, ⟨var, hvar⟩, hreadBelow⟩, hrest⟩ := hread
      obtain ⟨hone, hbelow, hsoleRest⟩ := hsole
      have hitemsTidy := Collection.tidy_items htidy p.name
      have htold : ∀ id, row.Identifies names r id → told names row below r ⊆ bound.under p.name id :=
        fun id hid fact h => hrow (mem_told_navigation.mpr (Or.inl ⟨r, id, fact.1, hr, hid, h, rfl⟩))
      obtain ⟨items, hroute⟩ : ∃ items, route names row t.name r
          (fun id entity => below.fill names row t.name r id entity) (entity.items p.name) = .ok items := by
        refine route_ok hvar fun id hid => ihBelow (hreadBelow id hid) (hagree.under p.name id) (hbelow id)
          (hitemsTidy.getD id) (fun fact hfact => ?_) (htold id hid) t.name id
        obtain hfact | rfl := Collection.mem_facts_getD.mp hfact
        · exact hentity hfact
        · exact htold id hid exists_mem_told
      have hitems := facts_route_fill hroute
      have hwithin : ∀ id, items.facts id ⊆ bound.under p.name id := by
        intro id fact hfact
        obtain hfact | ⟨hid, hfact⟩ := (hitems id fact).mp hfact
        · exact hentity hfact
        · exact htold id hid hfact
      have hitemsTidy' := tidy_route hitemsTidy hroute fun hentity hfill => tidy_fill hfill hentity
      have hlength : p.isSingle = true → items.ids.length ≤ 1 := by
        intro hs
        apply hitemsTidy'.length_ids
        intro id hid id' hid'
        exact hone hs id id' (hwithin id (Collection.mem_ids_iff.mp hid))
          (hwithin id' (Collection.mem_ids_iff.mp hid'))
      obtain ⟨entity', hfill⟩ := ih hrest hagree hsoleRest (htidy.setItems hitemsTidy' p.name)
        (by
          intro fact hfact
          obtain hfact | ⟨id, path, hpath, hid, hfact⟩ := (mem_facts_setItems hitems).mp hfact
          · exact hentity hfact
          · obtain ⟨_, said⟩ := fact
            obtain rfl := hpath
            exact htold id hid hfact)
        (fun fact h => hrow (mem_told_navigation.mpr (Or.inr h))) type id
      exact ⟨entity', fill_navigation_iff.mpr ⟨r, items, hr, hroute, hlength, hfill⟩⟩

end Success

section Collect

variable {rows : List Row} {coll : Collection}

def heard (names : Naming) (rows : List Row) (shape : Shape) (root : Place) (id : String) : Facts :=
  {fact | ∃ row ∈ rows, fact ∈ toldOf names row shape root id}

/-- All that the row asks for, at a place and below, has a variable. -/
def Legible (names : Naming) (row : Row) (shape : Shape) (root : Place) : Prop :=
  (∃ var, names.value? root idName = some var) ∧
    ∀ id, row.Identifies names root id → shape.Readable names row root

/-- The collection says what the rows say, and no more. -/
structure Collects (names : Naming) (shape : Shape) (root : Place) (rows : List Row) (coll : Collection) :
    Prop where
  tidy : coll.Tidy
  facts : ∀ id, coll.facts id = heard names rows shape root id
  sole : ∀ id, shape.Sole (heard names rows shape root id)
  legible : ∀ row ∈ rows, Legible names row shape root

theorem collect_nil : shape.collect names type q [] = .ok .nil := rfl

theorem collect_concat_iff {coll' : Collection} : shape.collect names type q (rows ++ [row]) = .ok coll' ↔
    ∃ coll, shape.collect names type q rows = .ok coll ∧
      route names row type q (fun id entity => shape.fill names row type q id entity) coll = .ok coll' := by
  unfold collect
  rw [List.foldlM_append]
  cases List.foldlM (fun collection row =>
    route names row type q (fun id entity => shape.fill names row type q id entity) collection)
    Collection.nil rows with
  | error e => simp [bind, Except.bind]
  | ok coll =>
      cases hroute : route names row type q (fun id entity => shape.fill names row type q id entity) coll with
      | error e => simp [bind, Except.bind, hroute]
      | ok after => simp [bind, Except.bind, pure, Except.pure, hroute]

theorem mem_heard_concat {fact : List (String × String) × Option (String × String)} :
    fact ∈ heard names (rows ++ [row]) shape q id ↔
      fact ∈ heard names rows shape q id ∨ fact ∈ toldOf names row shape q id := by
  simp [heard, or_and_right, exists_or]

theorem legible_of_route {coll' : Collection}
    (hok : route names row type q (fun id entity => shape.fill names row type q id entity) coll =
      .ok coll') : Legible names row shape q := by
  obtain ⟨hvar, ⟨hnone, -⟩ | ⟨id, -, hupdate⟩⟩ := route_spec hok
  · exact ⟨hvar, fun id hid => absurd hid (hnone id)⟩
  · obtain ⟨entity, hentity, -⟩ := Collection.update_spec hupdate
    exact ⟨hvar, fun _ _ => readable_of_fill hentity⟩

theorem collects_of_collect (hok : shape.collect names type q rows = .ok coll) :
    Collects names shape q rows coll := by
  induction rows using List.reverseRecOn generalizing coll with
  | nil =>
      obtain rfl := Except.ok.inj (collect_nil.symm.trans hok)
      refine ⟨Collection.tidy_nil, fun id => ?_, fun id => ?_, nofun⟩
      · simp [Collection.facts, Collection.get?, heard]
      · exact (sole_empty shape).mono fun fact hfact => by simp [heard] at hfact
  | append_singleton rows row ih =>
      obtain ⟨before, hbefore, hroute⟩ := collect_concat_iff.mp hok
      have h := ih hbefore
      have hfacts : ∀ id, coll.facts id = heard names (rows ++ [row]) shape q id := by
        intro id
        ext fact
        rw [facts_route_fill hroute, h.facts, mem_heard_concat]
      refine ⟨?_, hfacts, fun id => ?_, fun row' hrow' => ?_⟩
      · exact tidy_route h.tidy hroute fun hentity hfill => tidy_fill hfill hentity
      · rw [← hfacts]
        refine sole_route hroute h.sole (fun id fact hfact => Or.inl (h.facts id ▸ hfact)) ?_ id
        exact fun hfill hsole hentity => sole_fill hfill hsole hentity
      · obtain hrow' | hrow' := List.mem_append.mp hrow'
        · exact h.legible row' hrow'
        · obtain rfl := List.mem_singleton.mp hrow'
          exact legible_of_route hroute

theorem exists_collect (hlegible : ∀ row ∈ rows, Legible names row shape q)
    (hagree : ∀ id, (heard names rows shape q id).Agreeing)
    (hsole : ∀ id, shape.Sole (heard names rows shape q id)) (type : String) :
    ∃ coll, shape.collect names type q rows = .ok coll := by
  induction rows using List.reverseRecOn with
  | nil => exact ⟨.nil, collect_nil⟩
  | append_singleton rows row ih =>
      have hsub : ∀ id, heard names rows shape q id ⊆ heard names (rows ++ [row]) shape q id :=
        fun id fact h => mem_heard_concat.mpr (Or.inl h)
      obtain ⟨coll, hcollect⟩ := ih (fun r hr => hlegible r (List.mem_append_left _ hr))
        (fun id => (hagree id).mono (hsub id)) fun id => (hsole id).mono (hsub id)
      have h := collects_of_collect hcollect
      obtain ⟨⟨var, hvar⟩, hread⟩ := hlegible row (by simp)
      obtain ⟨coll', hroute⟩ : ∃ coll', route names row type q
          (fun id entity => shape.fill names row type q id entity) coll = .ok coll' := by
        refine route_ok hvar fun id hid => fill_ok (hread id hid) (hagree id) (hsole id) (h.tidy.getD id)
          (fun fact hfact => ?_) (fun fact hfact => mem_heard_concat.mpr (Or.inr ⟨hid, hfact⟩)) type id
        obtain hfact | rfl := Collection.mem_facts_getD.mp hfact
        · exact hsub id (h.facts id ▸ hfact)
        · exact mem_heard_concat.mpr (Or.inr ⟨hid, exists_mem_told⟩)
      exact ⟨coll', collect_concat_iff.mpr ⟨coll, hcollect, hroute⟩⟩

theorem Collects.agreeing (h : Collects names shape q rows coll) (id : String) :
    (heard names rows shape q id).Agreeing :=
  h.facts id ▸ coll.agreeing_facts id

end Collect

end Shape
end EntityGraph
