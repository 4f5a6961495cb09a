import EntityGraph.Proofs.Results.Unordered
import Mathlib.Data.List.Nodup

/-!
# Forests of records

Records form a forest: the records under a navigation property are the children of a record. A record
is of a shape, if its fields are those of the shape; what decoding can give satisfies more than that:
every entity is identified, different children of one entity have different identifiers, and foreign
keys are the identifiers of the entities that they lead to.

A forest of this kind can be written down as a collection of entities, of which it is the records. What
it says are the facts of that collection.
-/
namespace EntityGraph

namespace Record

def text? (name : String) : Record → Option String
  | nil => none
  | value other text rest => if other = name then text.or (rest.text? name) else rest.text? name
  | absent _ rest => rest.text? name
  | single _ _ rest => rest.text? name
  | many _ _ rest => rest.text? name

/-- The records under a navigation property. -/
def children (name : String) : Record → List Record
  | nil => []
  | value _ _ rest => rest.children name
  | absent _ rest => rest.children name
  | single other child rest => if other = name then [child] else rest.children name
  | many other children rest => if other = name then children else rest.children name

def Says : List (String × String) → Option (String × String) → Record → Prop
  | [], none, _ => True
  | [], some (name, text), record => record.text? name = some text
  | (name, id) :: path, fact, record =>
    ∃ child ∈ record.children name, child.text? idName = some id ∧ child.Says path fact

/-- What records say of the entity of an identifier. -/
def facts (records : List Record) (id : String) : Facts :=
  {fact | ∃ record ∈ records, record.text? idName = some id ∧ record.Says fact.1 fact.2}

/-- Every record has an identifier, and no two of them have the same. -/
structure Identified (records : List Record) : Prop where
  known : ∀ record ∈ records, ∃ id, record.text? idName = some id
  distinct : (records.map fun record => record.text? idName).Nodup

end Record

namespace Shape

/-- The elementary properties that a shape shows. -/
def values : Shape → List Property
  | nil => []
  | value p rest => p :: rest.values
  | navigation _ _ _ rest => rest.values

/-- The navigation properties that a shape shows, with what it shows of the entities there. -/
def navigations : Shape → List (Property × Shape)
  | nil => []
  | value _ rest => rest.navigations
  | navigation p _ below rest => (p, below) :: rest.navigations

/-- The fields of a record are those of a shape; a single-valued navigation property has at most one
child. -/
inductive Lays : Shape → Record → Prop
  | nil : Lays .nil .nil
  | value {p : Property} {rest : Shape} {text : Option String} {record : Record} (h : Lays rest record) :
      Lays (.value p rest) (.value p.name text record)
  | absent {p : Property} {t : EntityType} {below rest : Shape} {record : Record}
      (hs : p.isSingle = true) (h : Lays rest record) :
      Lays (.navigation p t below rest) (.absent p.name record)
  | single {p : Property} {t : EntityType} {below rest : Shape} {child record : Record}
      (hs : p.isSingle = true) (h : Lays rest record) :
      Lays (.navigation p t below rest) (.single p.name child record)
  | many {p : Property} {t : EntityType} {below rest : Shape} {children : List Record} {record : Record}
      (hs : p.isSingle = false) (h : Lays rest record) :
      Lays (.navigation p t below rest) (.many p.name children record)

/-- The record is one of an entity that a shape shows. The foreign keys of a navigation property have
the same text; if the property is expanded, that is the identifier of the child, and there is none if
there is no child. -/
inductive Describes : Shape → Record → Prop
  | intro {shape : Shape} {record : Record} (lays : shape.Lays record)
      (keys : ∀ p ∈ shape.values, ∀ p' ∈ shape.values, ∀ navigation, p.foreignKeyOf = some navigation →
        p'.foreignKeyOf = some navigation → record.text? p.name = record.text? p'.name)
      (key : ∀ p ∈ shape.values, ∀ navigation ∈ shape.navigations, p.foreignKeyOf = some navigation.1.name →
        (∀ child ∈ record.children navigation.1.name, child.text? idName = record.text? p.name) ∧
        (record.children navigation.1.name = [] → record.text? p.name = none))
      (identified : ∀ navigation ∈ shape.navigations, Record.Identified (record.children navigation.1.name))
      (below : ∀ navigation ∈ shape.navigations, ∀ child ∈ record.children navigation.1.name,
        Describes navigation.2 child) : Describes shape record

end Shape

namespace Record

variable {record : Record} {records : List Record} {name : String}

@[elab_as_elim] theorem field_induction {motive : Record → Prop} (nil : motive nil)
    (value : ∀ name text rest, motive rest → motive (value name text rest))
    (absent : ∀ name rest, motive rest → motive (absent name rest))
    (single : ∀ name child rest, motive rest → motive (single name child rest))
    (many : ∀ name children rest, motive rest → motive (many name children rest)) :
    ∀ record, motive record
  | .nil => nil
  | .value name text rest => value name text rest (field_induction nil value absent single many rest)
  | .absent name rest => absent name rest (field_induction nil value absent single many rest)
  | .single name child rest => single name child rest (field_induction nil value absent single many rest)
  | .many name children rest => many name children rest (field_induction nil value absent single many rest)

mutual

def entity : Record → Entity
  | nil => .nil
  | value name (some text) rest => .value name text rest.entity
  | value _ none rest => rest.entity
  | absent _ rest => rest.entity
  | single name child rest =>
      .navigation name (.cons ((child.text? idName).getD "") child.entity .nil) rest.entity
  | many name children rest => .navigation name (collection children) rest.entity

def collection : List Record → Collection
  | [] => .nil
  | record :: rest => .cons ((record.text? idName).getD "") record.entity (collection rest)

end

theorem value?_entity (record : Record) (name : String) : record.entity.value? name = record.text? name := by
  induction record using field_induction with
  | nil => rfl
  | value other text rest ih =>
      cases text with
      | none => simpa [entity, text?] using ih
      | some text => simp [entity, text?, Entity.value?, ih]
  | absent other rest ih => simpa [entity, text?] using ih
  | single other child rest ih => simpa [entity, text?, Entity.value?] using ih
  | many other children rest ih => simpa [entity, text?, Entity.value?] using ih

theorem items_entity (record : Record) (name : String) :
    record.entity.items name = collection (record.children name) := by
  unfold Entity.items
  induction record using field_induction with
  | nil => rfl
  | value other text rest ih =>
      cases text with
      | none => simpa [entity, children] using ih
      | some text => simpa [entity, children, Entity.items?] using ih
  | absent other rest ih => simpa [entity, children] using ih
  | single other child rest ih =>
      by_cases h : other = name
      · simp [entity, children, Entity.items?, h, collection]
      · simpa [entity, children, Entity.items?, h] using ih
  | many other children rest ih =>
      by_cases h : other = name
      · simp [entity, Record.children, Entity.items?, h]
      · simpa [entity, Record.children, Entity.items?, h] using ih

theorem toList_collection (records : List Record) :
    (collection records).toList = records.map fun record =>
    ((record.text? idName).getD "", record.entity) := by
  induction records with
  | nil => rfl
  | cons record rest ih => simp [collection, Collection.toList, ih]

theorem Identified.tail (h : Identified (record :: records)) : Identified records :=
  ⟨(List.forall_mem_cons.mp h.known).2, (List.nodup_cons.mp h.distinct).2⟩

theorem Identified.nodup_ids (h : Identified records) : (collection records).ids.Nodup := by
  rw [Collection.ids, toList_collection, List.map_map]
  apply List.Nodup.of_map Option.some
  rw [List.map_map]
  have hsame : records.map (some ∘ (·.1) ∘ fun record => ((record.text? idName).getD "", record.entity)) =
      records.map fun record => record.text? idName := by
    refine List.map_congr_left fun record hrecord => ?_
    obtain ⟨id, hid⟩ := h.known record hrecord
    simp [hid]
  rw [hsame]
  exact h.distinct

theorem Identified.get?_iff (h : Identified records) {id : String} {entity : Entity} :
    (collection records).get? id = some entity ↔
      ∃ record ∈ records, record.text? idName = some id ∧ record.entity = entity := by
  constructor
  · intro hget
    induction records with
    | nil => simp [collection, Collection.get?] at hget
    | cons record rest ih =>
        obtain ⟨id', hid'⟩ := h.known record List.mem_cons_self
        by_cases hid : id' = id
        · subst hid
          simp only [collection, Collection.get?, hid', Option.getD_some, if_pos, Option.some.injEq] at hget
          exact ⟨record, List.mem_cons_self, hid', hget⟩
        · simp only [collection, Collection.get?, hid', Option.getD_some, if_neg hid] at hget
          obtain ⟨found, hfound, hrest⟩ := ih h.tail hget
          exact ⟨found, List.mem_cons_of_mem _ hfound, hrest⟩
  · rintro ⟨record, hrecord, hid, rfl⟩
    apply Collection.get?_of_mem_toList h.nodup_ids
    rw [toList_collection]
    exact List.mem_map.mpr ⟨record, hrecord, by rw [hid, Option.getD_some]⟩

end Record

namespace Shape

variable {shape : Shape} {record : Record} {name : String}

theorem mem_labels_of_values {p : Property} (hp : p ∈ shape.values) : p.name ∈ shape.labels := by
  induction shape with
  | nil => simp [values] at hp
  | value p' rest ih =>
      obtain rfl | hp := List.mem_cons.mp hp
      · exact List.mem_cons_self
      · exact List.mem_cons_of_mem _ (ih hp)
  | navigation p' t below rest _ ih => exact List.mem_cons_of_mem _ (ih hp)

theorem mem_labels_of_navigations {navigation : Property × Shape} (hp : navigation ∈ shape.navigations) :
    navigation.1.name ∈ shape.labels := by
  induction shape with
  | nil => simp [navigations] at hp
  | value p' rest ih => exact List.mem_cons_of_mem _ (ih hp)
  | navigation p' t below rest _ ih =>
      obtain rfl | hp := List.mem_cons.mp hp
      · exact List.mem_cons_self
      · exact List.mem_cons_of_mem _ (ih hp)

section Lays

theorem Lays.exists_value (h : shape.Lays record) {text : String} (htext : record.text? name = some text) :
    ∃ p ∈ shape.values, p.name = name := by
  induction h with
  | nil => simp [Record.text?] at htext
  | @value p rest text' record _ ih =>
      by_cases hname : p.name = name
      · exact ⟨p, List.mem_cons_self, hname⟩
      · obtain ⟨p', hp', hname'⟩ := ih (by simpa [Record.text?, hname] using htext)
        exact ⟨p', List.mem_cons_of_mem _ hp', hname'⟩
  | absent _ _ ih => exact ih htext
  | single _ _ ih => exact ih htext
  | many _ _ ih => exact ih htext

theorem Lays.exists_navigation (h : shape.Lays record) {child : Record}
    (hchild : child ∈ record.children name) : ∃ navigation ∈ shape.navigations, navigation.1.name = name := by
  induction h with
  | nil => simp [Record.children] at hchild
  | value _ ih => exact ih hchild
  | absent _ _ ih =>
      obtain ⟨found, hfound, hname⟩ := ih hchild
      exact ⟨found, List.mem_cons_of_mem _ hfound, hname⟩
  | @single p t below rest child' record _ _ ih =>
      by_cases hname : p.name = name
      · exact ⟨_, List.mem_cons_self, hname⟩
      · obtain ⟨found, hfound, hname'⟩ := ih (by simpa [Record.children, hname] using hchild)
        exact ⟨found, List.mem_cons_of_mem _ hfound, hname'⟩
  | @many p t below rest children record _ _ ih =>
      by_cases hname : p.name = name
      · exact ⟨_, List.mem_cons_self, hname⟩
      · obtain ⟨found, hfound, hname'⟩ := ih (by simpa [Record.children, hname] using hchild)
        exact ⟨found, List.mem_cons_of_mem _ hfound, hname'⟩

theorem Lays.text?_eq_none (h : shape.Lays record) (hname : name ∉ shape.labels) :
    record.text? name = none := by
  by_contra hsome
  obtain ⟨text, htext⟩ := Option.ne_none_iff_exists'.mp hsome
  obtain ⟨p, hp, rfl⟩ := h.exists_value htext
  exact hname (mem_labels_of_values hp)

theorem Lays.children_eq_nil (h : shape.Lays record) (hname : name ∉ shape.labels) :
    record.children name = [] := by
  rw [List.eq_nil_iff_forall_not_mem]
  intro child hchild
  obtain ⟨navigation, hnavigation, rfl⟩ := h.exists_navigation hchild
  exact hname (mem_labels_of_navigations hnavigation)

theorem Lays.length_children (h : shape.Lays record) (hd : shape.Distinct) {navigation : Property × Shape}
    (hnavigation : navigation ∈ shape.navigations) (hs : navigation.1.isSingle = true) :
    (record.children navigation.1.name).length ≤ 1 := by
  induction h with
  | nil => simp [navigations] at hnavigation
  | value _ ih => exact ih hd.2 hnavigation
  | @absent p t below rest record _ h ih =>
      obtain rfl | hnavigation := List.mem_cons.mp hnavigation
      · simp [Record.children, h.children_eq_nil hd.1]
      · exact ih hd.2.2 hnavigation
  | @single p t below rest child record _ _ ih =>
      obtain rfl | hnavigation := List.mem_cons.mp hnavigation
      · simp [Record.children]
      · have hne : p.name ≠ navigation.1.name := fun h => hd.1 (h ▸ mem_labels_of_navigations hnavigation)
        simpa [Record.children, hne] using ih hd.2.2 hnavigation
  | @many p t below rest children record hmany _ ih =>
      obtain rfl | hnavigation := List.mem_cons.mp hnavigation
      · simp [hmany] at hs
      · have hne : p.name ≠ navigation.1.name := fun h => hd.1 (h ▸ mem_labels_of_navigations hnavigation)
        simpa [Record.children, hne] using ih hd.2.2 hnavigation

theorem records_collection_of {records : List Record}
    (h : ∀ record ∈ records, shape.record record.entity = record) :
    shape.records (Record.collection records) = records := by
  rw [Shape.records, Record.toList_collection, List.map_map]
  exact (List.map_congr_left h).trans (List.map_id _)

/-- Under the names of a shape an entity has what a record has, and the children of the record are read back
from their entities. -/
structure Mirrors (shape : Shape) (record : Record) (entity : Entity) : Prop where
  value : ∀ name ∈ shape.labels, entity.value? name = record.text? name
  items : ∀ name ∈ shape.labels, entity.items name = Record.collection (record.children name)
  below : ∀ navigation ∈ shape.navigations, ∀ child ∈ record.children navigation.1.name,
    navigation.2.record child.entity = child

namespace Mirrors

variable {entity : Entity}

theorem rest {more : Shape} {others : Record} (h : shape.Mirrors record entity)
    (hlabels : more.labels ⊆ shape.labels) (hnavigations : more.navigations ⊆ shape.navigations)
    (htext : ∀ name ∈ more.labels, record.text? name = others.text? name)
    (hchildren : ∀ name ∈ more.labels, record.children name = others.children name) :
    more.Mirrors others entity where
  value name hname := (h.value name (hlabels hname)).trans (htext name hname)
  items name hname := by rw [h.items name (hlabels hname), hchildren name hname]
  below navigation hnavigation child hchild := by
    rw [← hchildren _ (mem_labels_of_navigations hnavigation)] at hchild
    exact h.below navigation (hnavigations hnavigation) child hchild

theorem records {navigation : Property × Shape} (h : shape.Mirrors record entity)
    (hnavigation : navigation ∈ shape.navigations) :
    navigation.2.records (entity.items navigation.1.name) = record.children navigation.1.name := by
  rw [h.items _ (mem_labels_of_navigations hnavigation)]
  exact records_collection_of (h.below navigation hnavigation)

end Mirrors

theorem Lays.record_eq (h : shape.Lays record) (hd : shape.Distinct) {entity : Entity}
    (hm : shape.Mirrors record entity) : shape.record entity = record := by
  induction h with
  | nil => rfl
  | @value p rest text record h ih =>
      have hne : ∀ name ∈ rest.labels, p.name ≠ name := fun name hname heq => hd.1 (heq ▸ hname)
      have htext : entity.value? p.name = text := by
        rw [hm.value p.name List.mem_cons_self]
        simp [Record.text?, h.text?_eq_none hd.1]
      have hrest : rest.Mirrors record entity := hm.rest (List.subset_cons_self _ _) (List.Subset.refl _)
        (fun name hname => by simp [Record.text?, hne name hname]) fun _ _ => rfl
      rw [Shape.record, htext, ih hd.2 hrest]
  | @absent p t below rest record hs h ih =>
      have hnone : below.records (entity.items p.name) = [] :=
        (hm.records List.mem_cons_self).trans (h.children_eq_nil hd.1)
      have hrest : rest.Mirrors record entity :=
        hm.rest (List.subset_cons_self _ _) (List.subset_cons_self _ _) (fun _ _ => rfl) fun _ _ => rfl
      unfold Shape.record
      rw [if_pos hs, ih hd.2.2 hrest]
      split
      · rfl
      · next hsome => exact absurd (hnone.symm.trans hsome) (List.cons_ne_nil _ _).symm
  | @single p t below rest child record hs h ih =>
      have hne : ∀ name ∈ rest.labels, p.name ≠ name := fun name hname heq => hd.1 (heq ▸ hname)
      have hone : below.records (entity.items p.name) = [child] :=
        (hm.records List.mem_cons_self).trans (by simp [Record.children])
      have hrest : rest.Mirrors record entity :=
        hm.rest (List.subset_cons_self _ _) (List.subset_cons_self _ _)
        (fun _ _ => rfl) fun name hname => by simp [Record.children, hne name hname]
      unfold Shape.record
      rw [if_pos hs, ih hd.2.2 hrest]
      split
      · next hnone => exact absurd (hone.symm.trans hnone) (List.cons_ne_nil _ _)
      · next first others hsome =>
          obtain rfl : child = first := (List.cons.inj (hone.symm.trans hsome)).1
          rfl
  | @many p t below rest children record hs h ih =>
      have hne : ∀ name ∈ rest.labels, p.name ≠ name := fun name hname heq => hd.1 (heq ▸ hname)
      have hall : below.records (entity.items p.name) = children :=
        (hm.records List.mem_cons_self).trans (by simp [Record.children])
      have hrest : rest.Mirrors record entity :=
        hm.rest (List.subset_cons_self _ _) (List.subset_cons_self _ _)
        (fun _ _ => rfl) fun name hname => by simp [Record.children, hne name hname]
      unfold Shape.record
      rw [if_neg (Bool.not_eq_true _ ▸ hs), ih hd.2.2 hrest]
      exact congrArg (Record.many p.name · record) hall

end Lays

theorem distinct_below (hd : shape.Distinct) {navigation : Property × Shape}
    (hnavigation : navigation ∈ shape.navigations) : navigation.2.Distinct := by
  induction shape with
  | nil => simp [navigations] at hnavigation
  | value p rest ih => exact ih hd.2 hnavigation
  | navigation p t below rest _ ih =>
      obtain rfl | hnavigation := List.mem_cons.mp hnavigation
      · exact hd.2.1
      · exact ih hd.2.2 hnavigation

theorem navigation_unique (hd : shape.Distinct) {navigation navigation' : Property × Shape}
    (h : navigation ∈ shape.navigations) (h' : navigation' ∈ shape.navigations)
    (hname : navigation.1.name = navigation'.1.name) : navigation = navigation' := by
  induction shape with
  | nil => simp [navigations] at h
  | value p rest ih => exact ih hd.2 h h'
  | navigation p t below rest _ ih =>
      obtain rfl | h := List.mem_cons.mp h
      · obtain rfl | h' := List.mem_cons.mp h'
        · rfl
        · exact absurd (hname ▸ mem_labels_of_navigations h') hd.1
      · obtain rfl | h' := List.mem_cons.mp h'
        · exact absurd (hname ▸ mem_labels_of_navigations h) hd.1
        · exact ih hd.2.2 h h'

theorem sole_iff {facts : Facts} : shape.Sole facts ↔ ∀ navigation ∈ shape.navigations,
    (navigation.1.isSingle = true → ∀ id id', ([(navigation.1.name, id)], none) ∈ facts →
      ([(navigation.1.name, id')], none) ∈ facts → id = id') ∧
    ∀ id, navigation.2.Sole (facts.under navigation.1.name id) := by
  induction shape with
  | nil => simp [Sole, navigations]
  | value p rest ih => exact ih
  | navigation p t below rest _ ih => simp [Sole, navigations, ih, and_assoc]

theorem admits_cons {id : String} {path : List (String × String)} {fact : Option (String × String)} :
    shape.Admits ((name, id) :: path) fact ↔
      ∃ navigation ∈ shape.navigations, navigation.1.name = name ∧ navigation.2.Admits path fact := by
  induction shape with
  | nil => simp [Admits, navigations]
  | value p rest ih => simp [Admits, navigations, ih]
  | navigation p t below rest _ ih => simp [Admits, navigations, ih, eq_comm]

theorem admits_value {text : String} :
    shape.Admits [] (some (name, text)) ↔ ∃ p ∈ shape.values, p.name = name := by
  induction shape with
  | nil => simp [Admits, values]
  | value p rest ih => simp [Admits, values, ih, eq_comm]
  | navigation p t below rest _ ih => simp [Admits, values, ih]

namespace Describes

theorem lays (h : shape.Describes record) : shape.Lays record := by
  cases h with
  | intro lays _ _ _ _ => exact lays

theorem identified (h : shape.Describes record) (name : String) :
    Record.Identified (record.children name) := by
  cases hchildren : record.children name with
  | nil => exact ⟨nofun, .nil⟩
  | cons child rest =>
      cases h with
      | intro lays _ _ identified _ =>
          obtain ⟨navigation, hnavigation, rfl⟩ :=
            lays.exists_navigation (hchildren ▸ List.mem_cons_self : child ∈ record.children name)
          exact hchildren ▸ identified navigation hnavigation

theorem keys (h : shape.Describes record) {p p' : Property} (hp : p ∈ shape.values) (hp' : p' ∈ shape.values)
    {navigation : String} (hf : p.foreignKeyOf = some navigation) (hf' : p'.foreignKeyOf = some navigation) :
    record.text? p.name = record.text? p'.name := by
  cases h with
  | intro _ keys _ _ _ => exact keys p hp p' hp' navigation hf hf'

theorem key (h : shape.Describes record) {p : Property} (hp : p ∈ shape.values)
    {navigation : Property × Shape}
    (hnavigation : navigation ∈ shape.navigations) (hf : p.foreignKeyOf = some navigation.1.name) :
    (∀ child ∈ record.children navigation.1.name, child.text? idName = record.text? p.name) ∧
      (record.children navigation.1.name = [] → record.text? p.name = none) := by
  cases h with
  | intro _ _ key _ _ => exact key p hp navigation hnavigation hf

theorem child (h : shape.Describes record) {navigation : Property × Shape}
    (hnavigation : navigation ∈ shape.navigations) {child : Record}
    (hchild : child ∈ record.children navigation.1.name) : navigation.2.Describes child := by
  cases h with
  | intro _ _ _ _ below => exact below navigation hnavigation child hchild

theorem record_entity (h : shape.Describes record) (hd : shape.Distinct) :
    shape.record record.entity = record := by
  induction h with
  | intro lays _ _ _ _ ih =>
      exact lays.record_eq hd {
        value := fun name _ => Record.value?_entity _ name
        items := fun name _ => Record.items_entity _ name
        below := fun navigation hnavigation child hchild =>
          ih navigation hnavigation child hchild (distinct_below hd hnavigation) }

theorem says_entity (h : shape.Describes record) {path : List (String × String)}
    {fact : Option (String × String)} : record.entity.Says path fact ↔ record.Says path fact := by
  induction path generalizing shape record with
  | nil =>
      cases fact with
      | none => exact Iff.rfl
      | some value => exact Eq.congr_left (Record.value?_entity record value.1)
  | cons step path ih =>
      obtain ⟨name, id⟩ := step
      have hidentified := h.identified name
      constructor
      · rintro ⟨entity, hget, hsaid⟩
        rw [Record.items_entity, hidentified.get?_iff] at hget
        obtain ⟨child, hchild, hid, rfl⟩ := hget
        obtain ⟨navigation, hnavigation, rfl⟩ := h.lays.exists_navigation hchild
        exact ⟨child, hchild, hid, (ih (h.child hnavigation hchild)).mp hsaid⟩
      · rintro ⟨child, hchild, hid, hsaid⟩
        obtain ⟨navigation, hnavigation, rfl⟩ := h.lays.exists_navigation hchild
        refine ⟨child.entity, ?_, (ih (h.child hnavigation hchild)).mpr hsaid⟩
        rw [Record.items_entity, hidentified.get?_iff]
        exact ⟨child, hchild, hid, rfl⟩

theorem tidy (h : shape.Describes record) : record.entity.Tidy := by
  induction h with
  | @intro shape record lays keys key identified below ih =>
      have h := Describes.intro lays keys key identified below
      apply Entity.Tidy.intro
      · intro name
        rw [Record.items_entity]
        exact (h.identified name).nodup_ids
      · intro name id entity hget
        rw [Record.items_entity, (h.identified name).get?_iff] at hget
        obtain ⟨child, hchild, -, rfl⟩ := hget
        obtain ⟨navigation, hnavigation, rfl⟩ := lays.exists_navigation hchild
        exact ih navigation hnavigation child hchild

theorem sole (h : shape.Describes record) (hd : shape.Distinct) : shape.Sole record.entity.facts := by
  induction h with
  | @intro shape record lays keys key identified below ih =>
      have h := Describes.intro lays keys key identified below
      rw [sole_iff]
      intro navigation hnavigation
      have hget : ∀ {id entity}, (record.entity.items navigation.1.name).get? id = some entity ↔
          ∃ child ∈ record.children navigation.1.name, child.text? idName = some id ∧
            child.entity = entity := by
        intro id entity
        rw [Record.items_entity, (h.identified _).get?_iff]
      refine ⟨fun hs id id' hid hid' => ?_, fun id => ?_⟩
      · have hone : (record.entity.items navigation.1.name).ids.length ≤ 1 := by
          rw [Record.items_entity, Collection.ids, Record.toList_collection, List.map_map, List.length_map]
          exact lays.length_children hd hnavigation hs
        exact Collection.eq_of_length_ids hone (Collection.mem_ids_iff.mpr hid)
          (Collection.mem_ids_iff.mpr hid')
      · rw [← Collection.facts_items]
        cases hentity : (record.entity.items navigation.1.name).get? id with
        | none =>
            apply (sole_empty navigation.2).mono
            rintro fact ⟨entity, hentity', -⟩
            simp [hentity] at hentity'
        | some entity =>
            obtain ⟨child, hchild, -, rfl⟩ := hget.mp hentity
            rw [Collection.facts_eq hentity]
            exact ih navigation hnavigation child hchild (distinct_below hd hnavigation)

theorem admits (h : shape.Describes record) {path : List (String × String)} {fact : Option (String × String)}
    (hsaid : record.Says path fact) : shape.Admits path fact := by
  induction path generalizing shape record with
  | nil =>
      cases fact with
      | none => exact shape.admits_exists
      | some value => exact admits_value.mpr (h.lays.exists_value hsaid)
  | cons step path ih =>
      obtain ⟨name, id⟩ := step
      obtain ⟨child, hchild, -, hsaid⟩ := hsaid
      obtain ⟨navigation, hnavigation, rfl⟩ := h.lays.exists_navigation hchild
      exact admits_cons.mpr ⟨navigation, hnavigation, rfl, ih (h.child hnavigation hchild) hsaid⟩

end Describes
end Shape

section Collection

variable {shape : Shape} {records : List Record}

theorem Record.Identified.tidy (h : Record.Identified records)
    (hdescribes : ∀ record ∈ records, shape.Describes record) : (Record.collection records).Tidy := by
  refine ⟨h.nodup_ids, fun {id entity} hget => ?_⟩
  obtain ⟨record, hrecord, -, rfl⟩ := h.get?_iff.mp hget
  exact (hdescribes record hrecord).tidy

theorem Record.Identified.facts_collection (h : Record.Identified records)
    (hdescribes : ∀ record ∈ records, shape.Describes record) (id : String) :
    (Record.collection records).facts id = Record.facts records id := by
  ext fact
  constructor
  · rintro ⟨entity, hget, hsaid⟩
    obtain ⟨record, hrecord, hid, rfl⟩ := h.get?_iff.mp hget
    exact ⟨record, hrecord, hid, (hdescribes record hrecord).says_entity.mp hsaid⟩
  · rintro ⟨record, hrecord, hid, hsaid⟩
    exact ⟨record.entity, h.get?_iff.mpr ⟨record, hrecord, hid, rfl⟩,
      (hdescribes record hrecord).says_entity.mpr hsaid⟩

theorem Shape.records_collection (hd : shape.Distinct)
    (hdescribes : ∀ record ∈ records, shape.Describes record) :
    shape.records (Record.collection records) = records :=
  records_collection_of fun record hrecord => (hdescribes record hrecord).record_entity hd

end Collection
end EntityGraph
