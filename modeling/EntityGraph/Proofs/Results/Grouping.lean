import EntityGraph.Proofs.Results.Collection
import EntityGraph.Proofs.Results.Resolved
import Mathlib.Data.List.Induction

/-!
# Rows in groups

What the rows of a result say, without folding them one after the other: at each level of a shape
the rows that bind the identifier of the level fall into groups, one for each identifier; a value is
the one that the rows of a group bind, and a related entity is again a group among them. Rows are
consistent when in every group each value, and each single related entity, is the same in all rows.

Folding rows that are consistent succeeds, and the collection that results says what the groups say.
-/
namespace EntityGraph

/-- The identifiers that rows bind to a variable, in the order in which they are first seen. -/
def Row.idsOf (var : String) (rows : List Row) : List String :=
  rows.foldl (fun ids row => (row.bound? var).elim ids (Collection.seen · ids)) []

def Row.group (var id : String) (rows : List Row) : List Row :=
  rows.filter fun row => row.bound? var = some id

/-- All rows that bind the variable bind it to the same text. -/
def Row.Agree (var : String) (rows : List Row) : Prop :=
  ∀ row ∈ rows, ∀ row' ∈ rows, ∀ a b, row.bound? var = some a → row'.bound? var = some b → a = b

namespace Row

theorem idsOf_concat (var : String) (rows : List Row) (row : Row) :
    idsOf var (rows ++ [row]) = (row.bound? var).elim (idsOf var rows)
      (Collection.seen · (idsOf var rows)) := by
  rw [idsOf, List.foldl_append]
  rfl

theorem idsOf_spec (var : String) (rows : List Row) :
    (idsOf var rows).Nodup ∧ ∀ id, id ∈ idsOf var rows ↔ ∃ row ∈ rows, row.bound? var = some id := by
  induction rows using List.reverseRecOn with
  | nil => simp [idsOf]
  | append_singleton rows row ih =>
      obtain ⟨hnodup, hmem⟩ := ih
      rw [idsOf_concat]
      cases hb : row.bound? var with
      | none =>
          refine ⟨hnodup, fun id => ?_⟩
          rw [Option.elim_none, hmem]
          simp [or_and_right, exists_or, hb]
      | some id' =>
          rw [Option.elim_some]
          unfold Collection.seen
          by_cases hid : id' ∈ idsOf var rows
          · rw [if_pos hid]
            refine ⟨hnodup, fun id => ?_⟩
            rw [hmem]
            constructor
            · rintro ⟨r, hr, hbound⟩
              exact ⟨r, List.mem_append_left _ hr, hbound⟩
            · rintro ⟨r, hr, hbound⟩
              obtain hr | hr := List.mem_append.mp hr
              · exact ⟨r, hr, hbound⟩
              · obtain rfl := List.mem_singleton.mp hr
                obtain rfl : id' = id := Option.some.inj (hb.symm.trans hbound)
                exact (hmem id').mp hid
          · rw [if_neg hid]
            refine ⟨List.nodup_append.mpr ⟨hnodup, by simp, ?_⟩, fun id => ?_⟩
            · rintro a ha b hb' rfl
              exact hid (by simpa using List.mem_singleton.mp hb' ▸ ha)
            · rw [List.mem_append, hmem]
              simp [or_and_right, exists_or, hb, eq_comm]

theorem group_concat_of_ne {var id : String} {row : Row} (h : row.bound? var ≠ some id) (rows : List Row) :
    group var id (rows ++ [row]) = group var id rows := by
  simp [group, h]

theorem group_concat_self {var id : String} {row : Row} (h : row.bound? var = some id) (rows : List Row) :
    group var id (rows ++ [row]) = group var id rows ++ [row] := by
  simp [group, h]

theorem group_eq_nil {var id : String} {rows : List Row} (h : id ∉ idsOf var rows) :
    group var id rows = [] := by
  refine List.filter_eq_nil_iff.mpr fun row hrow hbound => h ?_
  exact ((idsOf_spec var rows).2 id).mpr ⟨row, hrow, by simpa using hbound⟩

theorem group_subset {var id : String} {rows rows' : List Row} (h : rows ⊆ rows') :
    group var id rows ⊆ group var id rows' := by
  intro row hrow
  obtain ⟨hmem, hbound⟩ := List.mem_filter.mp hrow
  exact List.mem_filter.mpr ⟨h hmem, hbound⟩

end Row

namespace Shape

/-- The names of what a shape shows at its first level. -/
def labels : Shape → List String
  | nil => []
  | value p rest => p.name :: rest.labels
  | navigation p _ _ rest => p.name :: rest.labels

/-- On every level nothing is shown twice. -/
def Distinct : Shape → Prop
  | nil => True
  | value p rest => p.name ∉ rest.labels ∧ rest.Distinct
  | navigation p _ below rest => p.name ∉ rest.labels ∧ below.Distinct ∧ rest.Distinct

/-- Everything shown has a variable, and in every group each value and each single related entity is
the same in all rows. -/
def Consistent (names : Naming) : Shape → Place → List Row → Prop
  | nil, _, _ => True
  | value p rest, q, rows =>
    (∃ var, names.value? q p.name = some var ∧ Row.Agree var rows) ∧ rest.Consistent names q rows
  | navigation p _ below rest, q, rows =>
    (∃ r var, names.related? q p.name = some r ∧ names.value? r idName = some var ∧
      (p.isSingle = true → Row.Agree var rows) ∧
      ∀ id, below.Consistent names r (Row.group var id rows)) ∧
    rest.Consistent names q rows

/-- The entity has what the rows of its group say. -/
def Holds (names : Naming) : Shape → Place → List Row → Entity → Prop
  | nil, _, _, _ => True
  | value p rest, q, rows, entity =>
    (∃ var, names.value? q p.name = some var ∧
      entity.value? p.name = rows.findSome? fun row => row.bound? var) ∧
    rest.Holds names q rows entity
  | navigation p _ below rest, q, rows, entity =>
    (∃ r var, names.related? q p.name = some r ∧ names.value? r idName = some var ∧
      (entity.items p.name).ids = Row.idsOf var rows ∧
      ∀ id child, (entity.items p.name).get? id = some child →
        below.Holds names r (Row.group var id rows) child) ∧
    rest.Holds names q rows entity

variable {names : Naming} {q : Place} {rows rows' : List Row} {shape : Shape} {entity entity' : Entity}

theorem Consistent.subset (h : shape.Consistent names q rows') (hsub : rows ⊆ rows') :
    shape.Consistent names q rows := by
  induction shape generalizing q rows rows' with
  | nil => trivial
  | value p rest ih =>
      obtain ⟨⟨var, hvar, hagree⟩, hrest⟩ := h
      exact ⟨⟨var, hvar, fun r hr r' hr' => hagree r (hsub hr) r' (hsub hr')⟩, ih hrest hsub⟩
  | navigation p t below rest ihBelow ih =>
      obtain ⟨⟨r, var, hr, hvar, hagree, hbelow⟩, hrest⟩ := h
      refine ⟨⟨r, var, hr, hvar, fun hs row hrow row' hrow' => ?_, fun id => ?_⟩, ih hrest hsub⟩
      · exact hagree hs row (hsub hrow) row' (hsub hrow')
      · exact ihBelow (hbelow id) (Row.group_subset hsub)

theorem Holds.congr (h : shape.Holds names q rows entity)
    (hsame : ∀ name ∈ shape.labels, entity'.value? name = entity.value? name ∧
      entity'.items? name = entity.items? name) : shape.Holds names q rows entity' := by
  induction shape with
  | nil => trivial
  | value p rest ih =>
      obtain ⟨hp, hothers⟩ := List.forall_mem_cons.mp hsame
      obtain ⟨⟨var, hvar, hvalue⟩, hrest⟩ := h
      exact ⟨⟨var, hvar, hp.1.trans hvalue⟩, ih hrest hothers⟩
  | navigation p t below rest _ ih =>
      obtain ⟨hp, hothers⟩ := List.forall_mem_cons.mp hsame
      obtain ⟨hhead, hrest⟩ := h
      refine ⟨?_, ih hrest hothers⟩
      have hitems : entity'.items p.name = entity.items p.name := by
        rw [Entity.items, hp.2, Entity.items]
      rwa [hitems]

theorem Holds.setValue {name text : String} (h : shape.Holds names q rows entity)
    (hname : name ∉ shape.labels) : shape.Holds names q rows (entity.setValue name text) := by
  refine h.congr fun other hother => ?_
  have hne : other ≠ name := fun heq => hname (heq ▸ hother)
  exact ⟨by rw [Entity.value?_setValue, if_neg hne], Entity.items?_setValue ..⟩

theorem Holds.setItems {name : String} {items : Collection} (h : shape.Holds names q rows entity)
    (hname : name ∉ shape.labels) : shape.Holds names q rows (entity.setItems name items) := by
  refine h.congr fun other hother => ?_
  have hne : other ≠ name := fun heq => hname (heq ▸ hother)
  exact ⟨Entity.value?_setItems .., by rw [Entity.items?_setItems, if_neg hne]⟩

theorem holds_nil (h : shape.Consistent names q rows) : shape.Holds names q [] .nil := by
  induction shape generalizing q rows with
  | nil => trivial
  | value p rest ih =>
      obtain ⟨⟨var, hvar, -⟩, hrest⟩ := h
      exact ⟨⟨var, hvar, rfl⟩, ih hrest⟩
  | navigation p t below rest _ ih =>
      obtain ⟨⟨r, var, hr, hvar, -⟩, hrest⟩ := h
      refine ⟨⟨r, var, hr, hvar, rfl, fun id child hchild => ?_⟩, ih hrest⟩
      simp [Entity.items, Entity.items?, Collection.get?] at hchild

/-- The collection has what the rows say, group by group. -/
structure Gathered (names : Naming) (shape : Shape) (q : Place) (var : String) (rows : List Row)
    (coll : Collection) : Prop where
  ids : coll.ids = Row.idsOf var rows
  entities : ∀ id child, coll.get? id = some child →
    shape.Holds names q (Row.group var id rows) child

theorem Gathered.sofar {var id : String} {coll : Collection} (h : Gathered names shape q var rows coll)
    (hc : shape.Consistent names q rows') :
    shape.Holds names q (Row.group var id rows) ((coll.get? id).getD .nil) := by
  cases hget : coll.get? id with
  | some child => exact h.entities id child hget
  | none =>
      have hnew : id ∉ Row.idsOf var rows := h.ids ▸ (Collection.get?_eq_none coll).mp hget
      rw [Row.group_eq_nil hnew]
      exact holds_nil hc

theorem Gathered.route {var : String} {row : Row} {coll : Collection}
    (h : Gathered names shape q var rows coll) (type : String)
    (fill : String → Entity → Except DecodeError Entity) (hvar : names.value? q idName = some var)
    (hc : ∀ id, shape.Consistent names q (Row.group var id (rows ++ [row])))
    (hfill : ∀ {id entity rows}, shape.Holds names q rows entity →
      shape.Consistent names q (rows ++ [row]) →
        ∃ entity', fill id entity = .ok entity' ∧ shape.Holds names q (rows ++ [row]) entity') :
    ∃ coll', route names row type q fill coll = .ok coll' ∧
      Gathered names shape q var (rows ++ [row]) coll' := by
  unfold Shape.route
  simp only [hvar]
  cases hb : row.bound? var with
  | none =>
      refine ⟨coll, rfl, ?_, fun id child hchild => ?_⟩
      · rw [h.ids, Row.idsOf_concat, hb, Option.elim_none]
      · rw [Row.group_concat_of_ne (by simp [hb])]
        exact h.entities id child hchild
  | some id =>
      have hgroup := Row.group_concat_self hb rows
      obtain ⟨entity', hok, hholds⟩ := hfill (h.sofar (hc id)) (hgroup ▸ hc id)
      obtain ⟨coll', hupdate, hids, hget, hothers⟩ := Collection.update_ok hok
      refine ⟨coll', hupdate, ?_, fun other child hchild => ?_⟩
      · rw [hids, h.ids, Row.idsOf_concat, hb, Option.elim_some]
      · by_cases hother : other = id
        · subst hother
          obtain rfl : entity' = child := Option.some.inj (hget.symm.trans hchild)
          rw [hgroup]
          exact hholds
        · have hne : row.bound? var ≠ some other := by
            rw [hb]
            exact fun heq => hother (Option.some.inj heq).symm
          rw [Row.group_concat_of_ne hne]
          exact h.entities other child (hothers other hother ▸ hchild)

theorem idsOf_of_agree {var : String} (h : Row.Agree var rows) {first second : String}
    {more : List String} : Row.idsOf var rows ≠ first :: second :: more := by
  intro heq
  obtain ⟨hnodup, hmem⟩ := Row.idsOf_spec var rows
  obtain ⟨r, hr, hfirst⟩ := (hmem first).mp (by simp [heq])
  obtain ⟨r', hr', hsecond⟩ := (hmem second).mp (by simp [heq])
  obtain rfl := h r hr r' hr' _ _ hfirst hsecond
  simp [heq] at hnodup

theorem findSome?_eq_of_agree {var text : String} (h : Row.Agree var rows) {row : Row}
    (hrow : row ∈ rows) (hb : row.bound? var = some text) :
    rows.findSome? (fun row => row.bound? var) = some text := by
  cases hfind : rows.findSome? fun row => row.bound? var with
  | none => simp [List.findSome?_eq_none_iff.mp hfind row hrow] at hb
  | some first =>
      obtain ⟨l₁, row', l₂, heq, hfirst, -⟩ := List.findSome?_eq_some_iff.mp hfind
      rw [h row' (by simp [heq]) row hrow first text hfirst hb]

theorem Holds.fill {row : Row} (hd : shape.Distinct) (h : shape.Holds names q rows entity)
    (hc : shape.Consistent names q (rows ++ [row])) (type id : String) :
    ∃ entity', shape.fill names row type q id entity = .ok entity' ∧
      shape.Holds names q (rows ++ [row]) entity' ∧
      ∀ name ∉ shape.labels, entity'.value? name = entity.value? name ∧
        entity'.items? name = entity.items? name := by
  induction shape generalizing q rows entity type id with
  | nil => exact ⟨entity, rfl, trivial, fun _ _ => ⟨rfl, rfl⟩⟩
  | value p rest ih =>
      obtain ⟨⟨var, hvar, hvalue⟩, hrest⟩ := h
      obtain ⟨⟨var', hvar', hagree⟩, hcrest⟩ := hc
      obtain rfl : var = var' := Option.some.inj (hvar.symm.trans hvar')
      unfold Shape.fill
      simp only [hvar]
      cases hb : row.bound? var with
      | none =>
          obtain ⟨entity', hok, hholds, hsame⟩ := ih hd.2 hrest hcrest type id
          refine ⟨entity', hok, ⟨⟨var, hvar, ?_⟩, hholds⟩, fun name hname => ?_⟩
          · rw [(hsame p.name hd.1).1, hvalue, List.findSome?_append]
            simp [hb]
          · exact hsame name fun hmem => hname (List.mem_cons_of_mem _ hmem)
      | some text =>
          have hall : (rows ++ [row]).findSome? (fun row => row.bound? var) = some text :=
            findSome?_eq_of_agree hagree (by simp) hb
          have hconflict : entity.conflict? p.name text = none := by
            unfold Entity.conflict?
            rw [hvalue]
            cases hfind : rows.findSome? fun row => row.bound? var with
            | none => rfl
            | some first =>
                rw [List.findSome?_append, hfind, Option.some_or] at hall
                simp [Option.some.inj hall]
          obtain ⟨entity', hok, hholds, hsame⟩ := ih hd.2 (hrest.setValue hd.1) hcrest type id
          simp only [hconflict]
          refine ⟨entity', hok, ⟨⟨var, hvar, ?_⟩, hholds⟩, fun name hname => ?_⟩
          · rw [(hsame p.name hd.1).1, Entity.value?_setValue, if_pos rfl, hvalue,
              List.findSome?_append]
            simp [hb]
          · obtain ⟨hne, hmem⟩ : name ≠ p.name ∧ name ∉ rest.labels := by simpa [labels] using hname
            obtain ⟨hv, hi⟩ := hsame name hmem
            rw [hv, hi, Entity.value?_setValue, if_neg hne, Entity.items?_setValue]
            exact ⟨rfl, rfl⟩
  | navigation p t below rest ihBelow ih =>
      obtain ⟨⟨r, var, hr, hvar, hids, hchildren⟩, hrest⟩ := h
      obtain ⟨⟨r', var', hr', hvar', hagree, hcbelow⟩, hcrest⟩ := hc
      obtain rfl : r = r' := Option.some.inj (hr.symm.trans hr')
      obtain rfl : var = var' := Option.some.inj (hvar.symm.trans hvar')
      have hgathered : Gathered names below r var rows (entity.items p.name) := ⟨hids, hchildren⟩
      obtain ⟨items, hroute, hitems⟩ := hgathered.route t.name
        (fun id entity => below.fill names row t.name r id entity) hvar hcbelow
        fun {id entity rows} hholds hc => by
          obtain ⟨entity', hok, hholds', -⟩ := ihBelow hd.2.1 hholds hc t.name id
          exact ⟨entity', hok, hholds'⟩
      obtain ⟨entity', hok, hholds, hsame⟩ := ih hd.2.2 (hrest.setItems hd.1) hcrest type id
      unfold Shape.fill
      simp only [hr, hroute, bind, Except.bind]
      have hitemsSet : entity'.items p.name = items := by
        rw [Entity.items, (hsame p.name hd.1).2, Entity.items?_setItems, if_pos rfl, Option.getD_some]
      refine ⟨entity', ?_, ⟨⟨r, var, hr, hvar, ?_, ?_⟩, hholds⟩, fun name hname => ?_⟩
      · split
        · next hsingle hfirst =>
            exact absurd (hitems.ids ▸ hfirst) (idsOf_of_agree (hagree hsingle))
        · exact hok
      · rw [hitemsSet]
        exact hitems.ids
      · rw [hitemsSet]
        exact hitems.entities
      · obtain ⟨hne, hmem⟩ : name ≠ p.name ∧ name ∉ rest.labels := by simpa [labels] using hname
        obtain ⟨hv, hi⟩ := hsame name hmem
        rw [hv, hi, Entity.items?_setItems, if_neg hne, Entity.value?_setItems]
        exact ⟨rfl, rfl⟩

/-- Folding consistent rows succeeds, and gathers what they say. -/
theorem collect_ok {var : String} (hd : shape.Distinct) (hvar : names.value? q idName = some var)
    (hc : ∀ id, shape.Consistent names q (Row.group var id rows)) (type : String) :
    ∃ coll, shape.collect names type q rows = .ok coll ∧ Gathered names shape q var rows coll := by
  unfold Shape.collect
  induction rows using List.reverseRecOn with
  | nil =>
      refine ⟨.nil, rfl, rfl, fun id child hchild => ?_⟩
      simp [Collection.get?] at hchild
  | append_singleton rows row ih =>
      obtain ⟨coll, hcoll, hgathered⟩ := ih fun id =>
        (hc id).subset (Row.group_subset (List.subset_append_left _ _))
      obtain ⟨coll', hroute, hgathered'⟩ := hgathered.route type
        (fun id entity => shape.fill names row type q id entity) hvar hc
        fun {id entity rows} hholds hc => by
          obtain ⟨entity', hok, hholds', -⟩ := hholds.fill hd hc type id
          exact ⟨entity', hok, hholds'⟩
      refine ⟨coll', ?_, hgathered'⟩
      rw [List.foldlM_append, hcoll]
      simp [bind, Except.bind, pure, Except.pure, hroute]

end Shape
end EntityGraph
