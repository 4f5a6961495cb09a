import EntityGraph.Proofs.Results.Facts
import EntityGraph.Proofs.Read.Alike

/-!
# The order of rows

What rows say depends on the set of the rows only, and so does whether they contradict each other.
What a collection says determines the records of its entities up to the order of arrays. So neither
the order of rows nor repeating some of them changes what is decoded, except for that order.
-/
namespace EntityGraph

namespace Row

def Same (row row' : Row) : Prop := ∀ name, row.lookup name = row'.lookup name

/-- The rows are the same, whatever their order and however often they are repeated. -/
def SameSet (rows rows' : List Row) : Prop :=
  (∀ row ∈ rows, ∃ row' ∈ rows', row.Same row') ∧ ∀ row' ∈ rows', ∃ row ∈ rows, row'.Same row

variable {names : Naming} {row row' : Row}

theorem Same.symm (h : row.Same row') : row'.Same row := fun name => (h name).symm

theorem SameSet.symm {rows rows' : List Row} (h : SameSet rows rows') : SameSet rows' rows :=
  ⟨h.2, h.1⟩

theorem sameSet_of_subset {rows rows' : List Row} (h : rows ⊆ rows') (h' : rows' ⊆ rows) :
    SameSet rows rows' :=
  ⟨fun row hrow => ⟨row, h hrow, fun _ => rfl⟩, fun row hrow => ⟨row, h' hrow, fun _ => rfl⟩⟩

theorem Same.bound? (h : row.Same row') (var : String) : row.bound? var = row'.bound? var := by
  rw [Row.bound?, Row.bound?, h]

theorem Same.identifies (h : row.Same row') {q : Place} {id : String} (hid : row.Identifies names q id) :
    row'.Identifies names q id := by
  obtain ⟨var, hvar, hbound⟩ := hid
  exact ⟨var, hvar, h.bound? var ▸ hbound⟩

theorem Same.says (h : row.Same row') {q : Place} {path : List (String × String)}
    {fact : Option (String × String)} (hsaid : row.Says names q path fact) : row'.Says names q path fact := by
  induction path generalizing q with
  | nil =>
      cases fact with
      | none => trivial
      | some value =>
          obtain ⟨var, hvar, hbound⟩ := hsaid
          exact ⟨var, hvar, h.bound? var ▸ hbound⟩
  | cons step path ih =>
      obtain ⟨r, hr, hid, hbelow⟩ := hsaid
      exact ⟨r, hr, h.identifies hid, ih hbelow⟩

end Row

namespace Shape

variable {names : Naming} {row row' : Row} {rows rows' : List Row} {q : Place} {shape : Shape}

theorem Readable.same (h : row.Same row') (hread : shape.Readable names row q) :
    shape.Readable names row' q := by
  induction shape generalizing q with
  | nil => trivial
  | value p rest ih => exact ⟨hread.1, ih hread.2⟩
  | navigation p t below rest ihBelow ih =>
      obtain ⟨⟨r, hr, hvar, hbelow⟩, hrest⟩ := hread
      exact ⟨⟨r, hr, hvar, fun id hid => ihBelow (hbelow id (h.symm.identifies hid))⟩, ih hrest⟩

theorem Legible.same (h : row.Same row') (hlegible : Legible names row shape q) :
    Legible names row' shape q :=
  ⟨hlegible.1, fun id hid => (hlegible.2 id (h.symm.identifies hid)).same h⟩

theorem heard_subset (h : ∀ row ∈ rows, ∃ row' ∈ rows', row.Same row') (id : String) :
    heard names rows shape q id ⊆ heard names rows' shape q id := by
  rintro fact ⟨row, hrow, hid, hsaid, hadmits⟩
  obtain ⟨row', hrow', hsame⟩ := h row hrow
  exact ⟨row', hrow', hsame.identifies hid, hsame.says hsaid, hadmits⟩

theorem heard_sameSet (h : Row.SameSet rows rows') (id : String) :
    heard names rows shape q id = heard names rows' shape q id :=
  (heard_subset h.1 id).antisymm (heard_subset h.2 id)

theorem exists_collect_sameSet (h : Row.SameSet rows rows') {type : String} {coll : Collection}
    (hok : shape.collect names type q rows = .ok coll) :
    ∃ coll', shape.collect names type q rows' = .ok coll' := by
  have hcollects := collects_of_collect hok
  apply exists_collect
  · intro row' hrow'
    obtain ⟨row, hrow, hsame⟩ := h.2 row' hrow'
    exact (hcollects.legible row hrow).same hsame.symm
  · intro id
    rw [← heard_sameSet h]
    exact hcollects.agreeing id
  · intro id
    rw [← heard_sameSet h]
    exact hcollects.sole id

end Shape

/-- The same records up to the order of arrays, the array of the records included. -/
def Record.Rearranged (records records' : List Record) : Prop :=
  ∃ ordered, AlikeEach records ordered ∧ ordered.Perm records'

namespace Record

theorem alikeEach_map {ids : List String} {f g : String → Record} (h : ∀ id ∈ ids, (f id).Alike (g id)) :
    AlikeEach (ids.map f) (ids.map g) := by
  induction ids with
  | nil => exact .nil
  | cons id ids ih =>
      obtain ⟨hid, hids⟩ := List.forall_mem_cons.mp h
      exact .cons hid (ih hids)

theorem Rearranged.cases_of_length {records records' : List Record} (h : Rearranged records records')
    (hlength : records.length ≤ 1) : records = [] ∧ records' = [] ∨
      ∃ record record', records = [record] ∧ records' = [record'] ∧ record.Alike record' := by
  obtain ⟨ordered, halike, hperm⟩ := h
  cases halike with
  | nil => exact Or.inl ⟨rfl, hperm.nil_eq.symm⟩
  | @cons record record' records _ hrecord hrecords =>
      obtain rfl : records = [] := List.eq_nil_of_length_eq_zero (by simpa using hlength)
      cases hrecords with
      | nil => exact Or.inr ⟨record, record', rfl, (List.singleton_perm.mp hperm).symm, hrecord⟩

theorem rearranged_map {coll coll' : Collection} {f g : Entity → Record} (hcoll : coll.Tidy)
    (hcoll' : coll'.Tidy) (hids : ∀ id, id ∈ coll.ids ↔ id ∈ coll'.ids)
    (h : ∀ {id child child'}, coll.get? id = some child → coll'.get? id = some child' →
      (f child).Alike (g child')) :
    Rearranged (coll.toList.map fun (_, child) => f child) (coll'.toList.map fun (_, child) => g child) := by
  rw [Shape.map_toList_eq (g := fun id => f ((coll.get? id).getD .nil)) hcoll.nodup
      fun id child hget => by rw [hget, Option.getD_some],
    Shape.map_toList_eq (g := fun id => g ((coll'.get? id).getD .nil)) hcoll'.nodup
      fun id child hget => by rw [hget, Option.getD_some]]
  refine ⟨coll.ids.map fun id => g ((coll'.get? id).getD .nil), alikeEach_map fun id hid => ?_, ?_⟩
  · obtain ⟨child, hchild⟩ := Collection.exists_get? hid
    obtain ⟨child', hchild'⟩ := Collection.exists_get? ((hids id).mp hid)
    rw [hchild, hchild', Option.getD_some, Option.getD_some]
    exact h hchild hchild'
  · apply List.Perm.map
    exact (List.perm_ext_iff_of_nodup hcoll.nodup hcoll'.nodup).mpr hids

end Record

namespace Shape

theorem record_alike {shape : Shape} {entity entity' : Entity} (hsole : shape.Sole entity.facts)
    (htidy : entity.Tidy) (htidy' : entity'.Tidy) (h : entity.facts = entity'.facts) :
    (shape.record entity).Alike (shape.record entity') := by
  induction shape generalizing entity entity' with
  | nil => exact .nil
  | value p rest ih =>
      have hvalue : entity.value? p.name = entity'.value? p.name := by
        apply Option.ext
        intro text
        rw [← Entity.value_mem_facts, ← Entity.value_mem_facts, h]
      rw [record, record, hvalue]
      exact .value (ih hsole htidy htidy' h)
  | navigation p t below rest ihBelow ih =>
      obtain ⟨hone, hbelow, hrest⟩ := hsole
      have hitems := Collection.tidy_items htidy p.name
      have hitems' := Collection.tidy_items htidy' p.name
      have hsame : ∀ id, (entity.items p.name).facts id = (entity'.items p.name).facts id := fun id => by
        rw [Collection.facts_items, Collection.facts_items, h]
      have hchildren := Record.rearranged_map (f := below.record) (g := below.record) hitems hitems'
        (fun id => by rw [Collection.mem_ids_iff, Collection.mem_ids_iff, hsame])
        fun {id child child'} hchild hchild' => by
          have hfacts := hsame id
          rw [Collection.facts_eq hchild, Collection.facts_eq hchild'] at hfacts
          have hsoleChild : below.Sole child.facts := by
            rw [← Collection.facts_eq hchild, Collection.facts_items]
            exact hbelow id
          exact ihBelow hsoleChild (hitems.below hchild) (hitems'.below hchild') hfacts
      unfold record
      cases hs : p.isSingle with
      | false =>
          obtain ⟨ordered, halike, hperm⟩ := hchildren
          exact .many halike hperm (ih hrest htidy htidy' h)
      | true =>
          have hlength : (entity.items p.name).ids.length ≤ 1 := by
            apply hitems.length_ids
            intro id hid id' hid'
            exact hone hs id id' (Collection.mem_ids_iff.mp hid) (Collection.mem_ids_iff.mp hid')
          obtain ⟨hnil, hnil'⟩ | ⟨child, child', hchild, hchild', halike⟩ :=
            hchildren.cases_of_length (by simpa [Collection.ids] using hlength)
          · simp only [hnil, hnil', if_true]
            exact .absent (ih hrest htidy htidy' h)
          · simp only [hchild, hchild', if_true]
            exact .single halike (ih hrest htidy htidy' h)

end Shape

section Missing

variable {schema : Schema} {T : EntityType} {expand : ExpandTree} {error : SchemaError} {names : Naming}
  {root : Place} {rows rows' : List Row}

def Row.Silent (names : Naming) (root : Place) (row : Row) : Prop :=
  (∃ var, names.value? root idName = some var) ∧ ∀ id, ¬ row.Identifies names root id

theorem Row.Same.silent {row row' : Row} (h : row.Same row') (hsilent : row.Silent names root) :
    row'.Silent names root :=
  ⟨hsilent.1, fun id hid => hsilent.2 id (h.symm.identifies hid)⟩

theorem Row.SameSet.silent (h : Row.SameSet rows rows') (hsilent : ∀ row ∈ rows, row.Silent names root) :
    ∀ row ∈ rows', row.Silent names root := by
  intro row' hrow'
  obtain ⟨row, hrow, hsame⟩ := h.2 row' hrow'
  exact hsame.symm.silent (hsilent row hrow)

namespace Shape

theorem collectEach_eq_ok_iff (h : Shape.ofExpand schema T expand = .error error) {coll : Collection} :
    collectEach schema names T expand root rows = .ok coll ↔
      coll = .nil ∧ ∀ row ∈ rows, row.Silent names root := by
  unfold collectEach
  generalize Collection.nil = before
  induction rows generalizing before coll with
  | nil => simp [pure, Except.pure, eq_comm]
  | cons row rows ih =>
      rw [List.foldlM_cons, List.forall_mem_cons]
      by_cases hsilent : row.Silent names root
      · obtain ⟨⟨var, hvar⟩, hnone⟩ := id hsilent
        rw [route_of_not_identifies hvar hnone]
        simpa only [hsilent, true_and, bind, Except.bind] using ih before
      · constructor
        · intro hok
          exfalso
          cases hroute : route names row T.name root (fun id entity => fillEach names row
            (children schema expand T) T.properties T.name root id entity) before with
          | error e => simp [hroute, bind, Except.bind] at hok
          | ok after =>
              obtain ⟨hvar, ⟨hnone, -⟩ | ⟨id, -, hupdate⟩⟩ := route_spec hroute
              · exact hsilent ⟨hvar, hnone⟩
              · obtain ⟨entity, hfill⟩ := update_eq_ok hupdate
                obtain ⟨e, herror⟩ := fillEach_fails h
                cases hfill.symm.trans herror
        · exact fun hall => absurd hall.2.1 hsilent

theorem decode_eq_ok_iff (h : ofExpand schema T expand = .error error) {records : List Record} :
    decode schema names T expand root rows = .ok records ↔
      records = [] ∧ ∀ row ∈ rows, row.Silent names root := by
  unfold decode decodeCollection
  rw [h]
  cases hcoll : collectEach schema names T expand root rows with
  | error e =>
      constructor
      · intro hok
        simp [bind, Except.bind] at hok
      · rintro ⟨-, hsilent⟩
        cases hcoll.symm.trans ((collectEach_eq_ok_iff h).mpr ⟨rfl, hsilent⟩)
  | ok coll =>
      obtain ⟨rfl, hsilent⟩ := (collectEach_eq_ok_iff h).mp hcoll
      constructor
      · intro hok
        exact ⟨(Except.ok.inj hok).symm, hsilent⟩
      · rintro ⟨rfl, -⟩
        rfl

end Shape

end Missing

section Decode

variable {names : Naming} {rows rows' : List Row} {schema : Schema}

theorem Shape.records_rearranged {shape : Shape} {coll coll' : Collection} (hcoll : coll.Tidy)
    (hcoll' : coll'.Tidy) (hsame : ∀ id, coll.facts id = coll'.facts id)
    (hsole : ∀ id, shape.Sole (coll.facts id)) :
    Record.Rearranged (shape.records coll) (shape.records coll') := by
  apply Record.rearranged_map hcoll hcoll'
  · intro id
    rw [Collection.mem_ids_iff, Collection.mem_ids_iff, hsame]
  · intro id entity entity' hget hget'
    have hfacts := hsame id
    rw [Collection.facts_eq hget, Collection.facts_eq hget'] at hfacts
    exact record_alike (Collection.facts_eq hget ▸ hsole id) (hcoll.below hget) (hcoll'.below hget') hfacts

theorem exists_decode_sameSet {T : EntityType} {expand : ExpandTree} {root : Place}
    (h : Row.SameSet rows rows') {records : List Record}
    (hok : decode schema names T expand root rows = .ok records) :
    ∃ records', decode schema names T expand root rows' = .ok records' ∧
      Record.Rearranged records records' := by
  cases hshape : Shape.ofExpand schema T expand with
  | error e =>
      obtain ⟨rfl, hsilent⟩ := (Shape.decode_eq_ok_iff hshape).mp hok
      exact ⟨[], (Shape.decode_eq_ok_iff hshape).mpr ⟨rfl, h.silent hsilent⟩, [], .nil, .refl _⟩
  | ok shape =>
      rw [decode_eq_collect hshape] at hok ⊢
      cases hcoll : shape.collect names T.name root rows with
      | error e => simp [hcoll, Except.map] at hok
      | ok coll =>
          obtain rfl : shape.records coll = records := by simpa [hcoll, Except.map] using hok
          obtain ⟨coll', hcoll'⟩ := Shape.exists_collect_sameSet h hcoll
          have hcollects := Shape.collects_of_collect hcoll
          have hcollects' := Shape.collects_of_collect hcoll'
          rw [hcoll']
          refine ⟨_, rfl, Shape.records_rearranged hcollects.tidy hcollects'.tidy (fun id => ?_)
            fun id => ?_⟩
          · rw [hcollects.facts, hcollects'.facts, Shape.heard_sameSet h]
          · rw [hcollects.facts]
            exact hcollects.sole id

/-- Neither the order of rows nor repeating some of them matters: decoding fails on both lists of rows,
or it gives on both of them the same records, up to the order of arrays. -/
theorem decode_sameSet (schema : Schema) (T : EntityType) (expand : ExpandTree) (names : Naming)
    (root : Place) (h : Row.SameSet rows rows') :
    (∃ records records', decode schema names T expand root rows = .ok records ∧
        decode schema names T expand root rows' = .ok records' ∧ Record.Rearranged records records') ∨
      ∃ e e', decode schema names T expand root rows = .error e ∧
        decode schema names T expand root rows' = .error e' := by
  cases hok : decode schema names T expand root rows with
  | ok records =>
      obtain ⟨records', hok', hsame⟩ := exists_decode_sameSet h hok
      exact Or.inl ⟨records, records', rfl, hok', hsame⟩
  | error e =>
      cases hok' : decode schema names T expand root rows' with
      | ok records' =>
          obtain ⟨records, hok'', -⟩ := exists_decode_sameSet h.symm hok'
          cases hok.symm.trans hok''
      | error e' => exact Or.inr ⟨e, e', rfl, rfl⟩

end Decode

/-- Rows of two parts of a thing, the other way around and one of them once more. -/
theorem decode_sameSet_sample : Row.SameSet Sample.twoParts (Sample.twoParts.reverse ++ Sample.twoParts) ∧
    ∃ records records', decode Sample.schema Sample.partsNames Sample.thing (.cons "Parts" .nil .nil) ⟨0⟩
        Sample.twoParts = .ok records ∧
      decode Sample.schema Sample.partsNames Sample.thing (.cons "Parts" .nil .nil) ⟨0⟩
        (Sample.twoParts.reverse ++ Sample.twoParts) = .ok records' ∧ Record.Rearranged records records' := by
  have hsame : Row.SameSet Sample.twoParts (Sample.twoParts.reverse ++ Sample.twoParts) := by
    apply Row.sameSet_of_subset
    · exact List.subset_append_right _ _
    · intro row hrow
      obtain hrow | hrow := List.mem_append.mp hrow
      · exact List.mem_reverse.mp hrow
      · exact hrow
  obtain hok | ⟨e, -, herror, -⟩ := decode_sameSet Sample.schema Sample.thing (.cons "Parts" .nil .nil)
    Sample.partsNames ⟨0⟩ hsame
  · exact ⟨hsame, hok⟩
  · obtain ⟨records, hrecords⟩ : ∃ records, decode Sample.schema Sample.partsNames Sample.thing
        (.cons "Parts" .nil .nil) ⟨0⟩ Sample.twoParts = .ok records := ⟨_, rfl⟩
    cases hrecords.symm.trans herror

end EntityGraph
