import EntityGraph.Proofs.Read.Accounts

/-!
# Decoding as grouping

What rows say can be said without folding them one after the other. The rows that bind the identifier
of a level fall into groups, one for each identifier, in the order in which the identifiers are first
seen. The record of a group has under each elementary property the only text that the rows of the
group bind to its variable, and under each expanded navigation property the records of the same rows,
grouped by the identifiers of the related entities.

Rows conflict when in some group, at some level, two rows bind different texts to the variable of an
elementary property or lead to different entities over a single-valued navigation property. Folding
fails exactly on rows that conflict, and otherwise gives the records of the groups.
-/
namespace EntityGraph

def DecodeError.IsInconsistent (e : DecodeError) : Prop :=
  ∃ type id property first second, e = .inconsistent type id property first second

namespace Row

/-- The texts that rows bind to a variable, without repetitions, first seen first. -/
def texts (var : String) (rows : List Row) : List String :=
  (rows.filterMap fun row => row.bound? var).eraseDups

def only? (var : String) (rows : List Row) : Option String :=
  match texts var rows with
  | [text] => some text
  | _ => none

def Differ (var : String) (rows : List Row) : Prop :=
  ∃ row ∈ rows, ∃ row' ∈ rows, ∃ a b, row.bound? var = some a ∧ row'.bound? var = some b ∧ a ≠ b

/-- One record for each identifier that rows bind to the variable, made of the rows that bind it. -/
def eachGroup (var : String) (rows : List Row) (record : List Row → Record) : List Record :=
  (texts var rows).map fun id => record (group var id rows)

variable {var : String} {rows : List Row}

theorem not_agree : ¬ Agree var rows ↔ Differ var rows := by
  simp only [Agree, Differ]
  push Not
  rfl

theorem idsOf_eq_texts (var : String) (rows : List Row) : idsOf var rows = texts var rows := by
  induction rows using List.reverseRecOn with
  | nil => rfl
  | append_singleton rows row ih =>
      rw [idsOf_concat, ih, texts, texts, List.filterMap_append, List.eraseDups_append]
      cases hb : row.bound? var with
      | none => simp [hb, List.removeAll]
      | some id =>
          rw [Option.elim_some]
          unfold Collection.seen
          by_cases hmem : id ∈ rows.filterMap fun row => row.bound? var
          · rw [if_pos (List.mem_eraseDups.mpr hmem)]
            simp [hb, List.removeAll, List.mem_filterMap.mp hmem]
          · rw [if_neg fun h => hmem (List.mem_eraseDups.mp h)]
            have hnone : ∀ row ∈ rows, row.bound? var ≠ some id := by simpa using hmem
            have hall : ([id].removeAll (rows.filterMap fun row => row.bound? var)) = [id] := by
              simpa [List.removeAll] using hnone
            simp [hb, hall, List.eraseDups_cons]

theorem mem_texts {text : String} : text ∈ texts var rows ↔ ∃ row ∈ rows, row.bound? var = some text := by
  simp [texts]

theorem length_le_one {ids : List String} (h : ∀ first second more, ids ≠ first :: second :: more) :
    ids.length ≤ 1 := by
  rcases ids with _ | ⟨first, _ | ⟨second, more⟩⟩
  · simp
  · simp
  · exact absurd rfl (h first second more)

theorem agree_iff_length : Agree var rows ↔ (texts var rows).length ≤ 1 := by
  constructor
  · intro hagree
    rw [← idsOf_eq_texts]
    exact length_le_one fun _ _ _ => Shape.idsOf_of_agree hagree
  · intro hlength row hrow row' hrow' a b ha hb
    have hmema : a ∈ texts var rows := mem_texts.mpr ⟨row, hrow, ha⟩
    have hmemb : b ∈ texts var rows := mem_texts.mpr ⟨row', hrow', hb⟩
    match htexts : texts var rows with
    | [] => simp [htexts] at hmema
    | [text] =>
        rw [htexts, List.mem_singleton] at hmema hmemb
        rw [hmema, hmemb]
    | first :: second :: more => simp [htexts] at hlength

theorem only?_eq_findSome? (h : Agree var rows) : only? var rows = rows.findSome? fun row =>
    row.bound? var := by
  have hlength := agree_iff_length.mp h
  unfold only?
  split
  · next text htexts =>
      obtain ⟨row, hrow, hb⟩ := mem_texts.mp (htexts ▸ List.mem_singleton_self text)
      exact (Shape.findSome?_eq_of_agree h hrow hb).symm
  · next hother =>
      match htexts : texts var rows with
      | [] =>
          refine (List.findSome?_eq_none_iff.mpr fun row hrow => ?_).symm
          by_contra hsome
          obtain ⟨text, htext⟩ := Option.ne_none_iff_exists'.mp hsome
          have hmem := mem_texts.mpr ⟨row, hrow, htext⟩
          simp [htexts] at hmem
      | [text] => exact absurd htexts (hother text)
      | first :: second :: more => simp [htexts] at hlength

/-- One more row agrees, if it binds the variable to the text bound before. -/
theorem Agree.concat {row : Row} (h : Agree var rows)
    (hsame : ∀ first text, rows.findSome? (fun row => row.bound? var) = some first →
      row.bound? var = some text → first = text) : Agree var (rows ++ [row]) := by
  have hnew : ∀ r ∈ rows, ∀ a b, r.bound? var = some a → row.bound? var = some b → a = b :=
    fun r hr a b ha hb => hsame a b (Shape.findSome?_eq_of_agree h hr ha) hb
  intro r hr r' hr' a b ha hb
  simp only [List.mem_append, List.mem_singleton] at hr hr'
  obtain hr | rfl := hr
  · obtain hr' | rfl := hr'
    · exact h r hr r' hr' a b ha hb
    · exact hnew r hr a b ha hb
  · obtain hr' | rfl := hr'
    · exact (hnew r' hr' b a hb ha).symm
    · exact Option.some.inj (ha.symm.trans hb)

end Row

namespace Shape

/-- Everything shown has a variable, and so has the identifier of every related entity. -/
def Named (names : Naming) : Shape → Place → Prop
  | nil, _ => True
  | value p rest, q => (names.value? q p.name).isSome ∧ rest.Named names q
  | navigation p _ below rest, q =>
    (∃ r, names.related? q p.name = some r ∧ (names.value? r idName).isSome ∧ below.Named names r) ∧
      rest.Named names q

/-- The record of the rows of one entity. -/
def grouped (names : Naming) : Shape → Place → List Row → Record
  | nil, _, _ => .nil
  | value p rest, q, rows =>
    .value p.name ((names.value? q p.name).bind fun var => Row.only? var rows) (rest.grouped names q rows)
  | navigation p _ below rest, q, rows =>
    let children := (names.related? q p.name).elim [] fun r =>
      (names.value? r idName).elim [] fun var => Row.eachGroup var rows (below.grouped names r)
    if p.isSingle then
      match children with
      | [child] => .single p.name child (rest.grouped names q rows)
      | _ => .absent p.name (rest.grouped names q rows)
    else .many p.name children (rest.grouped names q rows)

/-- The rows of one entity contradict each other, about it or about an entity related to it. -/
inductive Conflict (names : Naming) : Shape → Place → List Row → Prop
  | value {p : Property} {rest : Shape} {q : Place} {rows : List Row} {var : String}
      (hvar : names.value? q p.name = some var) (h : Row.Differ var rows) :
      Conflict names (value p rest) q rows
  | single {p : Property} {t : EntityType} {below rest : Shape} {q r : Place} {rows : List Row}
      {var : String} (hr : names.related? q p.name = some r) (hvar : names.value? r idName = some var)
      (hs : p.isSingle = true) (h : Row.Differ var rows) :
      Conflict names (navigation p t below rest) q rows
  | inGroup {p : Property} {t : EntityType} {below rest : Shape} {q r : Place} {rows : List Row}
      {var id : String} (hr : names.related? q p.name = some r)
      (hvar : names.value? r idName = some var)
      (h : Conflict names below r (Row.group var id rows)) :
      Conflict names (navigation p t below rest) q rows
  | afterValue {p : Property} {rest : Shape} {q : Place} {rows : List Row}
      (h : Conflict names rest q rows) : Conflict names (value p rest) q rows
  | afterNavigation {p : Property} {t : EntityType} {below rest : Shape} {q : Place} {rows : List Row}
      (h : Conflict names rest q rows) : Conflict names (navigation p t below rest) q rows

variable {names : Naming} {q : Place} {rows : List Row} {row : Row} {shape : Shape} {var : String}

theorem Named.consistent_iff (h : shape.Named names q) :
    shape.Consistent names q rows ↔ ¬ shape.Conflict names q rows := by
  induction shape generalizing q rows with
  | nil => exact ⟨fun _ => nofun, fun _ => trivial⟩
  | value p rest ih =>
      obtain ⟨hvalue, hrest⟩ := h
      obtain ⟨var, hvar⟩ := Option.isSome_iff_exists.mp hvalue
      constructor
      · rintro ⟨⟨var', hvar', hagree⟩, hconsistent⟩ hconflict
        cases hconflict with
        | value hvar'' hdiffer =>
            obtain rfl := Option.some.inj (hvar'.symm.trans hvar'')
            exact Row.not_agree.mpr hdiffer hagree
        | afterValue h => exact (ih hrest).mp hconsistent h
      · intro hnone
        refine ⟨⟨var, hvar, ?_⟩, (ih hrest).mpr fun h => hnone (.afterValue h)⟩
        exact not_not.mp fun h => hnone (.value hvar (Row.not_agree.mp h))
  | navigation p t below rest ihBelow ih =>
      obtain ⟨⟨r, hr, hvalue, hbelow⟩, hrest⟩ := h
      obtain ⟨var, hvar⟩ := Option.isSome_iff_exists.mp hvalue
      constructor
      · rintro ⟨⟨r', var', hr', hvar', hagree, hgroups⟩, hconsistent⟩ hconflict
        obtain rfl := Option.some.inj (hr.symm.trans hr')
        obtain rfl := Option.some.inj (hvar.symm.trans hvar')
        cases hconflict with
        | single hr'' hvar'' hs hdiffer =>
            obtain rfl := Option.some.inj (hr.symm.trans hr'')
            obtain rfl := Option.some.inj (hvar.symm.trans hvar'')
            exact Row.not_agree.mpr hdiffer (hagree hs)
        | @inGroup _ _ _ _ _ _ _ _ id hr'' hvar'' h =>
            obtain rfl := Option.some.inj (hr.symm.trans hr'')
            obtain rfl := Option.some.inj (hvar.symm.trans hvar'')
            exact (ihBelow hbelow).mp (hgroups id) h
        | afterNavigation h => exact (ih hrest).mp hconsistent h
      · intro hnone
        refine ⟨⟨r, var, hr, hvar, fun hs => ?_, fun id => ?_⟩,
          (ih hrest).mpr fun h => hnone (.afterNavigation h)⟩
        · exact not_not.mp fun h => hnone (.single hr hvar hs (Row.not_agree.mp h))
        · exact (ihBelow hbelow).mpr fun h => hnone (.inGroup hr hvar h)

section Records

theorem map_toList_eq {coll : Collection} {f : Entity → Record} {g : String → Record}
    (hnodup : coll.ids.Nodup) (h : ∀ id child, coll.get? id = some child → f child = g id) :
    (coll.toList.map fun (_, child) => f child) = coll.ids.map g := by
  rw [Collection.ids, List.map_map]
  refine List.map_congr_left fun entry hentry => ?_
  exact h entry.1 entry.2 (Collection.get?_of_mem_toList hnodup hentry)

theorem Holds.record_eq {entity : Entity} (h : shape.Holds names q rows entity)
    (hc : shape.Consistent names q rows) : shape.record entity = shape.grouped names q rows := by
  induction shape generalizing q rows entity with
  | nil => rfl
  | value p rest ih =>
      obtain ⟨⟨var, hvar, hvalue⟩, hrest⟩ := h
      obtain ⟨⟨var', hvar', hagree⟩, hcrest⟩ := hc
      obtain rfl := Option.some.inj (hvar.symm.trans hvar')
      rw [record, grouped, ih hrest hcrest, hvalue, hvar, Option.bind_some, Row.only?_eq_findSome? hagree]
  | navigation p t below rest ihBelow ih =>
      obtain ⟨⟨r, var, hr, hvar, hids, hchildren⟩, hrest⟩ := h
      obtain ⟨⟨r', var', hr', hvar', hagree, hcbelow⟩, hcrest⟩ := hc
      obtain rfl := Option.some.inj (hr.symm.trans hr')
      obtain rfl := Option.some.inj (hvar.symm.trans hvar')
      have hmap : ((entity.items p.name).toList.map fun (_, child) => below.record child) =
          Row.eachGroup var rows (below.grouped names r) := by
        rw [map_toList_eq (hids ▸ (Row.idsOf_spec var rows).1)
          fun id child hget => ihBelow (hchildren id child hget) (hcbelow id)]
        rw [hids, Row.idsOf_eq_texts, Row.eachGroup]
      simp only [record, grouped, ih hrest hcrest, hr, hvar, Option.elim_some, hmap]
      cases hs : p.isSingle with
      | false => rfl
      | true =>
          have hlength : (Row.eachGroup var rows (below.grouped names r)).length ≤ 1 := by
            rw [Row.eachGroup, List.length_map]
            exact Row.agree_iff_length.mp (hagree hs)
          match hrecords : Row.eachGroup var rows (below.grouped names r) with
          | [] => rfl
          | [child] => rfl
          | first :: second :: more => simp [hrecords] at hlength

theorem Gathered.records_eq {coll : Collection} (h : Gathered names shape q var rows coll)
    (hc : ∀ id, shape.Consistent names q (Row.group var id rows)) :
    shape.records coll = Row.eachGroup var rows (shape.grouped names q) := by
  rw [records, map_toList_eq (h.ids ▸ (Row.idsOf_spec var rows).1)
    fun id child hget => (h.entities id child hget).record_eq (hc id)]
  rw [h.ids, Row.idsOf_eq_texts, Row.eachGroup]

end Records

section Success

-- What is recorded without an error is consistent.

theorem update_eq_ok {ε : Type} {id : String} {f : Entity → Except ε Entity} {coll coll' : Collection}
    (h : coll.update id f = .ok coll') : ∃ entity, f ((coll.get? id).getD .nil) = .ok entity := by
  cases hf : f ((coll.get? id).getD .nil) with
  | ok entity => exact ⟨entity, rfl⟩
  | error e =>
      exfalso
      induction coll using Collection.entry_induction generalizing coll' with
      | nil =>
          have hnil : f .nil = .error e := by simpa [Collection.get?] using hf
          simp [Collection.update, hnil, bind, Except.bind] at h
      | cons other entity rest ih =>
          unfold Collection.update at h
          by_cases hother : other = id
          · have hentity : f entity = .error e := by simpa [Collection.get?, hother] using hf
            simp [hother, hentity, bind, Except.bind] at h
          · cases hrest : rest.update id f with
            | ok rest' => exact ih hrest (by simpa [Collection.get?, hother] using hf)
            | error e' => simp [hother, hrest, bind, Except.bind] at h

theorem Gathered.consistent_of_route {coll coll' : Collection} {type : String}
    {fill : String → Entity → Except DecodeError Entity} (h : Gathered names shape q var rows coll)
    (hvar : names.value? q idName = some var)
    (hc : ∀ id, shape.Consistent names q (Row.group var id rows))
    (hroute : Shape.route names row type q fill coll = .ok coll')
    (hfill : ∀ {id entity entity' rows}, shape.Holds names q rows entity →
      shape.Consistent names q rows → fill id entity = .ok entity' →
        shape.Consistent names q (rows ++ [row])) (id : String) :
    shape.Consistent names q (Row.group var id (rows ++ [row])) := by
  by_cases hb : row.bound? var = some id
  · unfold Shape.route at hroute
    simp only [hvar, hb] at hroute
    obtain ⟨entity, hentity⟩ := update_eq_ok hroute
    rw [Row.group_concat_self hb]
    exact hfill (h.sofar (hc id)) (hc id) hentity
  · rw [Row.group_concat_of_ne hb]
    exact hc id

theorem Holds.consistent_of_fill {entity entity' : Entity} {type id : String} (hd : shape.Distinct)
    (h : shape.Holds names q rows entity) (hc : shape.Consistent names q rows)
    (hok : shape.fill names row type q id entity = .ok entity') :
    shape.Consistent names q (rows ++ [row]) := by
  induction shape generalizing q rows entity entity' type id with
  | nil => trivial
  | value p rest ih =>
      obtain ⟨⟨var, hvar, hvalue⟩, hrest⟩ := h
      obtain ⟨⟨var', hvar', hagree⟩, hcrest⟩ := hc
      obtain rfl := Option.some.inj (hvar.symm.trans hvar')
      unfold Shape.fill at hok
      simp only [hvar] at hok
      cases hb : row.bound? var with
      | none =>
          simp only [hb] at hok
          exact ⟨⟨var, hvar, hagree.concat (by simp [hb])⟩, ih hd.2 hrest hcrest hok⟩
      | some text =>
          simp only [hb] at hok
          split at hok
          · simp at hok
          · next hconflict =>
              refine ⟨⟨var, hvar, hagree.concat fun first text' hfirst htext => ?_⟩,
                ih hd.2 (hrest.setValue hd.1) hcrest hok⟩
              obtain rfl := Option.some.inj (hb.symm.trans htext)
              simpa [Entity.conflict?, hvalue, hfirst] using hconflict
  | navigation p t below rest ihBelow ih =>
      obtain ⟨⟨r, var, hr, hvar, hids, hchildren⟩, hrest⟩ := h
      obtain ⟨⟨r', var', hr', hvar', hagree, hcbelow⟩, hcrest⟩ := hc
      obtain rfl := Option.some.inj (hr.symm.trans hr')
      obtain rfl := Option.some.inj (hvar.symm.trans hvar')
      have hgathered : Gathered names below r var rows (entity.items p.name) := ⟨hids, hchildren⟩
      unfold Shape.fill at hok
      simp only [hr] at hok
      cases hroute : route names row t.name r (fun id entity => below.fill names row t.name r id entity)
        (entity.items p.name) with
      | error e => simp [hroute, bind, Except.bind] at hok
      | ok items =>
          simp only [hroute, bind, Except.bind] at hok
          have hgroups := hgathered.consistent_of_route hvar hcbelow hroute fun hholds hconsistent hfill =>
            ihBelow hd.2.1 hholds hconsistent hfill
          obtain ⟨items', hroute', hgathered'⟩ := hgathered.route t.name
            (fun id entity => below.fill names row t.name r id entity) hvar hgroups
            fun {id entity rows} hholds hc => by
              obtain ⟨entity', hok, hholds', -⟩ := hholds.fill hd.2.1 hc t.name id
              exact ⟨entity', hok, hholds'⟩
          obtain rfl := Except.ok.inj (hroute.symm.trans hroute')
          split at hok
          · simp at hok
          · next hmany =>
              refine ⟨⟨r, var, hr, hvar, fun hs => ?_, hgroups⟩, ih hd.2.2 (hrest.setItems hd.1) hcrest hok⟩
              rw [Row.agree_iff_length, ← Row.idsOf_eq_texts, ← hgathered'.ids]
              exact Row.length_le_one fun first second more => hmany first second more hs

theorem not_conflict_nil : ¬ shape.Conflict names q [] := by
  intro hconflict
  generalize hrows : ([] : List Row) = rows at hconflict
  induction hconflict with
  | value _ hdiffer =>
      obtain ⟨row, hrow, -⟩ := hdiffer
      simp [← hrows] at hrow
  | single _ _ _ hdiffer =>
      obtain ⟨row, hrow, -⟩ := hdiffer
      simp [← hrows] at hrow
  | inGroup _ _ _ ih => exact ih (by simp [← hrows, Row.group])
  | afterValue _ ih => exact ih hrows
  | afterNavigation _ ih => exact ih hrows

theorem consistent_of_collect {type : String} {coll : Collection} (hd : shape.Distinct)
    (hn : shape.Named names q) (hvar : names.value? q idName = some var)
    (hok : shape.collect names type q rows = .ok coll) (id : String) :
    shape.Consistent names q (Row.group var id rows) := by
  unfold Shape.collect at hok
  induction rows using List.reverseRecOn generalizing coll id with
  | nil => exact hn.consistent_iff.mpr not_conflict_nil
  | append_singleton rows row ih =>
      rw [List.foldlM_append] at hok
      cases hbefore : List.foldlM (fun collection row => route names row type q
        (fun id entity => shape.fill names row type q id entity) collection) Collection.nil rows with
      | error e => simp [hbefore, bind, Except.bind] at hok
      | ok before =>
          have hroute : route names row type q (fun id entity => shape.fill names row type q id entity)
              before = .ok coll := by
            simp only [hbefore, bind, Except.bind, List.foldlM] at hok
            cases hstep : route names row type q (fun id entity => shape.fill names row type q id entity)
              before with
            | error e => simp [hstep] at hok
            | ok after => simpa [hstep, pure, Except.pure] using hok
          have hc := fun id => ih hbefore id
          obtain ⟨before', hcollect, hgathered⟩ := collect_ok hd hvar hc type
          obtain rfl := Except.ok.inj (hbefore.symm.trans hcollect)
          exact hgathered.consistent_of_route hvar hc hroute
            (fun hholds hconsistent hfill => hholds.consistent_of_fill hd hconsistent hfill) id

end Success

section Errors

-- The only errors of named shapes are contradictions.

theorem update_eq_error {ε : Type} {id : String} {f : Entity → Except ε Entity} {coll : Collection} {e : ε}
    (h : coll.update id f = .error e) : ∃ entity, f entity = .error e := by
  induction coll using Collection.entry_induction with
  | nil =>
      cases hf : f .nil with
      | ok entity => simp [Collection.update, hf, bind, Except.bind, pure, Except.pure] at h
      | error e' =>
          obtain rfl : e' = e := by simpa [Collection.update, hf, bind, Except.bind] using h
          exact ⟨.nil, hf⟩
  | cons other entity rest ih =>
      unfold Collection.update at h
      by_cases hother : other = id
      · cases hf : f entity with
        | ok entity' => simp [hother, hf, bind, Except.bind, pure, Except.pure] at h
        | error e' =>
            obtain rfl : e' = e := by simpa [hother, hf, bind, Except.bind] using h
            exact ⟨entity, hf⟩
      · cases hrest : rest.update id f with
        | ok rest' => simp [hother, hrest, bind, Except.bind, pure, Except.pure] at h
        | error e' =>
            obtain rfl : e' = e := by simpa [hother, hrest, bind, Except.bind] using h
            exact ih hrest

theorem isInconsistent_of_route {type : String} {fill : String → Entity → Except DecodeError Entity}
    {coll : Collection} {e : DecodeError} (hvar : names.value? q idName = some var)
    (hfill : ∀ {id entity}, fill id entity = .error e → e.IsInconsistent)
    (h : route names row type q fill coll = .error e) : e.IsInconsistent := by
  unfold route at h
  simp only [hvar] at h
  cases hb : row.bound? var with
  | none => simp [hb] at h
  | some id =>
      simp only [hb] at h
      obtain ⟨entity, hentity⟩ := update_eq_error h
      exact hfill hentity

theorem Named.isInconsistent_of_fill {type id : String} {entity : Entity} {e : DecodeError}
    (hn : shape.Named names q) (h : shape.fill names row type q id entity = .error e) :
    e.IsInconsistent := by
  induction shape generalizing q entity type id with
  | nil => simp [fill] at h
  | value p rest ih =>
      obtain ⟨hvalue, hrest⟩ := hn
      obtain ⟨var, hvar⟩ := Option.isSome_iff_exists.mp hvalue
      unfold fill at h
      simp only [hvar] at h
      split at h
      · exact ih hrest h
      · split at h
        · exact ⟨_, _, _, _, _, (Except.error.inj h).symm⟩
        · exact ih hrest h
  | navigation p t below rest ihBelow ih =>
      obtain ⟨⟨r, hr, hvalue, hbelow⟩, hrest⟩ := hn
      obtain ⟨var, hvar⟩ := Option.isSome_iff_exists.mp hvalue
      unfold fill at h
      simp only [hr] at h
      cases hroute : route names row t.name r (fun id entity => below.fill names row t.name r id entity)
        (entity.items p.name) with
      | error e' =>
          obtain rfl : e' = e := by simpa [hroute, bind, Except.bind] using h
          exact isInconsistent_of_route hvar (fun hfill => ihBelow hbelow hfill) hroute
      | ok items =>
          simp only [hroute, bind, Except.bind] at h
          split at h
          · exact ⟨_, _, _, _, _, (Except.error.inj h).symm⟩
          · exact ih hrest h

theorem Named.isInconsistent_of_collect {type : String} {e : DecodeError} (hn : shape.Named names q)
    (hvar : names.value? q idName = some var) (h : shape.collect names type q rows = .error e) :
    e.IsInconsistent := by
  unfold collect at h
  generalize Collection.nil = coll at h
  induction rows generalizing coll with
  | nil => simp [pure, Except.pure] at h
  | cons row rows ih =>
      rw [List.foldlM_cons] at h
      cases hroute : route names row type q (fun id entity => shape.fill names row type q id entity) coll with
      | error e' =>
          obtain rfl : e' = e := by simpa [hroute, bind, Except.bind] using h
          exact isInconsistent_of_route hvar (fun hfill => hn.isInconsistent_of_fill hfill) hroute
      | ok coll' =>
          simp only [hroute, bind, Except.bind] at h
          exact ih coll' h

end Errors

theorem Shows.unique {schema : Schema} {expand : ExpandTree} {ps : List Property} {shape' : Shape}
    (h : Shows schema expand ps shape) (h' : Shows schema expand ps shape') : shape = shape' := by
  induction h generalizing shape' with
  | nil =>
      cases h' with
      | nil => rfl
  | value he _ ih =>
      cases h' with
      | value _ hrest => rw [ih hrest]
      | skip hne => simp [he] at hne
      | navigation hne => simp [he] at hne
  | skip hne hc _ ih =>
      cases h' with
      | value he => simp [he] at hne
      | skip _ _ hrest => exact ih hrest
      | navigation _ hsome => simp [hc] at hsome
  | navigation hne hc ht _ _ ihBelow ih =>
      cases h' with
      | value he => simp [he] at hne
      | skip _ hnone => simp [hc] at hnone
      | navigation _ hc' ht' hbelow hrest =>
          obtain rfl := Option.some.inj (hc.symm.trans hc')
          obtain rfl := Except.ok.inj (ht.symm.trans ht')
          rw [ihBelow hbelow, ih hrest]

theorem Shows.named_id {schema : Schema} {T : EntityType} {expand : ExpandTree} (hs : schema.Accepted)
    (hT : T ∈ schema.types) (h : Shows schema expand T.properties shape) (hn : shape.Named names q) :
    ∃ var, names.value? q idName = some var := by
  obtain ⟨i, hi, hname, -, he, -⟩ := hs.id hT
  rw [← hname]
  generalize T.properties = ps at h hi
  clear hT
  induction h with
  | nil => simp at hi
  | value _ _ ih =>
      obtain ⟨hvalue, hrest⟩ := hn
      obtain rfl | hi := List.mem_cons.mp hi
      · exact Option.isSome_iff_exists.mp hvalue
      · exact ih hrest hi
  | skip hne _ _ ih =>
      obtain rfl | hi := List.mem_cons.mp hi
      · simp [he] at hne
      · exact ih hn hi
  | navigation hne _ _ _ _ _ ih =>
      obtain rfl | hi := List.mem_cons.mp hi
      · simp [he] at hne
      · exact ih hn.2 hi

end Shape

section Decode

variable {schema : Schema} {T : EntityType}

/-- Decoding is grouping. Every expand tree gives a shape; if everything that the shape shows has a
variable, then rows of which no group conflicts give the records of their groups, and rows of which
some group conflicts are inconsistent. -/
theorem decode_groups (hs : schema.Accepted) (hT : T ∈ schema.types) (expand : ExpandTree) :
    (∃ shape : Shape, shape.Shows schema expand T.properties) ∧
      ∀ (shape : Shape) (names : Naming) (root : Place),
        shape.Shows schema expand T.properties → shape.Named names root →
          ∃ var, names.value? root idName = some var ∧ ∀ rows : List Row,
            ((∀ id, ¬ shape.Conflict names root (Row.group var id rows)) →
              decode schema names T expand root rows =
                .ok (Row.eachGroup var rows (shape.grouped names root))) ∧
            ((∃ id, shape.Conflict names root (Row.group var id rows)) →
              ∃ type id property first second, decode schema names T expand root rows =
                .error (.inconsistent type id property first second)) := by
  obtain ⟨shape, hshape⟩ := Shape.exists_ofExpand hs expand hT
  have hshows := Shape.shows_ofExpand hs hT hshape
  refine ⟨⟨shape, hshows⟩, fun shape' names root hshows' hn => ?_⟩
  obtain rfl : shape = shape' := hshows.unique hshows'
  have hd := hshows.distinct hs hT (List.suffix_refl _)
  obtain ⟨var, hvar⟩ := hshows.named_id hs hT hn
  refine ⟨var, hvar, fun rows => ?_⟩
  rw [decode_eq_collect hshape]
  constructor
  · intro hnone
    have hc := fun id => hn.consistent_iff.mpr (hnone id)
    obtain ⟨coll, hcoll, hgathered⟩ := Shape.collect_ok hd hvar hc T.name
    rw [hcoll]
    exact congrArg Except.ok (hgathered.records_eq hc)
  · rintro ⟨id, hconflict⟩
    cases hcoll : shape.collect names T.name root rows with
    | ok coll =>
        have hconsistent := Shape.consistent_of_collect hd hn hvar hcoll id
        exact absurd hconflict (hn.consistent_iff.mp hconsistent)
    | error e =>
        obtain ⟨type, id, property, first, second, rfl⟩ := hn.isInconsistent_of_collect hvar hcoll
        exact ⟨type, id, property, first, second, rfl⟩

end Decode

namespace Sample

def partsNames : Naming where
  next := 8
  values := [((⟨0⟩, "Id"), "?x1"), ((⟨0⟩, "Label"), "?x2"), ((⟨0⟩, "WholeId"), "?x3"),
    ((⟨4⟩, "Id"), "?x5"), ((⟨4⟩, "Label"), "?x6"), ((⟨4⟩, "WholeId"), "?x7")]
  related := [((⟨0⟩, "Parts"), ⟨4⟩)]

def twoParts : List Row :=
  [Row.ofPairs [("x1", "1"), ("x5", "2"), ("x6", "part")], Row.ofPairs [("x1", "1"), ("x5", "3")]]

def bareThing (id : String) (label : Option String) (rest : Record) : Record :=
  .value "Id" (some id) (.value "Label" label (.value "WholeId" none rest))

def relabelled : List Row :=
  [Row.ofPairs [("x1", "1"), ("x5", "2"), ("x6", "part")],
    Row.ofPairs [("x1", "1"), ("x5", "2"), ("x6", "piece")]]

end Sample

/-- Things read with their parts, from rows of two parts and from rows that do not agree. -/
theorem decode_groups_sample :
    Sample.schema.Accepted ∧ Sample.thing ∈ Sample.schema.types ∧ ∃ shape : Shape,
      shape.Shows Sample.schema (.cons "Parts" .nil .nil) Sample.thing.properties ∧
      shape.Named Sample.partsNames ⟨0⟩ ∧
      decode Sample.schema Sample.partsNames Sample.thing (.cons "Parts" .nil .nil) ⟨0⟩ Sample.twoParts =
        .ok [Sample.bareThing "1" none (.many "Parts"
          [Sample.bareThing "2" (some "part") .nil, Sample.bareThing "3" none .nil] .nil)] ∧
      ∃ type id property first second,
        decode Sample.schema Sample.partsNames Sample.thing (.cons "Parts" .nil .nil) ⟨0⟩ Sample.relabelled =
          .error (.inconsistent type id property first second) := by
  obtain ⟨shape, hshape⟩ : ∃ shape, Shape.ofExpand Sample.schema Sample.thing (.cons "Parts" .nil .nil) =
    .ok shape := ⟨_, rfl⟩
  have hshows := Shape.shows_ofExpand Sample.accepted List.mem_cons_self hshape
  have hnamed : shape.Named Sample.partsNames ⟨0⟩ := by
    obtain rfl := Except.ok.inj hshape
    refine ⟨by decide, by decide, by decide, ⟨⟨4⟩, by decide, by decide, ?_⟩, trivial⟩
    exact ⟨by decide, by decide, by decide, trivial⟩
  -- the label of the only part of thing 1
  have hdiffer : Row.Differ "?x6" (Row.group "?x5" "2" (Row.group "?x1" "1" Sample.relabelled)) :=
    ⟨_, List.mem_cons_self, _, List.mem_cons_of_mem _ List.mem_cons_self, "part", "piece", by decide⟩
  have hconflict : shape.Conflict Sample.partsNames ⟨0⟩ (Row.group "?x1" "1" Sample.relabelled) := by
    obtain rfl := Except.ok.inj hshape
    exact .afterValue (.afterValue (.afterValue (.inGroup rfl rfl (.afterValue (.value rfl hdiffer)))))
  obtain ⟨var, hvar, h⟩ := (decode_groups Sample.accepted List.mem_cons_self _).2 _ _ _ hshows hnamed
  obtain rfl : "?x1" = var := Option.some.inj hvar
  have hnone : ∀ id, ¬ shape.Conflict Sample.partsNames ⟨0⟩ (Row.group "?x1" id Sample.twoParts) := by
    intro id htwo
    obtain ⟨_, _, _, _, _, herror⟩ := (h Sample.twoParts).2 ⟨id, htwo⟩
    cases herror
  refine ⟨Sample.accepted, List.mem_cons_self, shape, hshows, hnamed, ?_,
    (h Sample.relabelled).2 ⟨"1", hconflict⟩⟩
  rw [(h Sample.twoParts).1 hnone]
  obtain rfl := Except.ok.inj hshape
  rfl

end EntityGraph
