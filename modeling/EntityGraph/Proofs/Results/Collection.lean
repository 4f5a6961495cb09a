import EntityGraph.Results.Decode
import Mathlib.Tactic.Common

/-!
# Entities and collections as maps

What the operations on entities and collections do to what can be read off them. Setting a value
or the related entities under one name leaves everything under other names as it is; changing the
entity of one identifier leaves the other entities as they are.
-/
namespace EntityGraph

namespace Entity

@[elab_as_elim] theorem field_induction {motive : Entity → Prop} (nil : motive nil)
    (value : ∀ name text rest, motive rest → motive (value name text rest))
    (navigation : ∀ name items rest, motive rest → motive (navigation name items rest)) :
    ∀ entity, motive entity
  | .nil => nil
  | .value name text rest => value name text rest (field_induction nil value navigation rest)
  | .navigation name items rest =>
    navigation name items rest (field_induction nil value navigation rest)

theorem value?_setValue (name text other : String) (entity : Entity) :
    (entity.setValue name text).value? other =
      if other = name then (entity.value? name).or (some text) else entity.value? other := by
  induction entity using field_induction with
  | nil =>
      by_cases h : other = name
      · simp [setValue, value?, h]
      · simp [setValue, value?, h, Ne.symm h]
  | value held kept rest ih =>
      by_cases hh : held = name
      · by_cases h : other = name
        · simp [setValue, value?, hh, h]
        · simp [setValue, value?, hh, h, Ne.symm h]
      · by_cases h : held = other
        · have hne : other ≠ name := fun h' => hh (h.trans h')
          simp [setValue, value?, h, hne]
        · simp [setValue, value?, hh, h, ih]
  | navigation held items rest ih => simpa [setValue, value?] using ih

theorem items?_setValue (name text other : String) (entity : Entity) :
    (entity.setValue name text).items? other = entity.items? other := by
  induction entity using field_induction with
  | nil => rfl
  | value held kept rest ih =>
      by_cases hh : held = name
      · simp [setValue, items?, hh]
      · simp [setValue, items?, hh, ih]
  | navigation held items rest ih => simp [setValue, items?, ih]

theorem items?_setItems (name other : String) (items : Collection) (entity : Entity) :
    (entity.setItems name items).items? other =
      if other = name then some items else entity.items? other := by
  induction entity using field_induction with
  | nil =>
      by_cases h : other = name
      · simp [setItems, items?, h]
      · simp [setItems, items?, h, Ne.symm h]
  | value held kept rest ih => simpa [setItems, items?] using ih
  | navigation held kept rest ih =>
      by_cases hh : held = name
      · by_cases h : other = name
        · simp [setItems, items?, hh, h]
        · simp [setItems, items?, hh, h, Ne.symm h]
      · by_cases h : held = other
        · have hne : other ≠ name := fun h' => hh (h.trans h')
          simp [setItems, items?, h, hne]
        · simp [setItems, items?, hh, h, ih]

theorem value?_setItems (name other : String) (items : Collection) (entity : Entity) :
    (entity.setItems name items).value? other = entity.value? other := by
  induction entity using field_induction with
  | nil => rfl
  | value held kept rest ih => simp [setItems, value?, ih]
  | navigation held kept rest ih =>
      by_cases hh : held = name
      · simp [setItems, value?, hh]
      · simp [setItems, value?, hh, ih]

end Entity

namespace Collection

@[elab_as_elim] theorem entry_induction {motive : Collection → Prop} (nil : motive nil)
    (cons : ∀ id entity rest, motive rest → motive (cons id entity rest)) :
    ∀ coll, motive coll
  | .nil => nil
  | .cons id entity rest => cons id entity rest (entry_induction nil cons rest)

theorem get?_eq_none {id : String} (coll : Collection) : coll.get? id = none ↔ id ∉ coll.ids := by
  induction coll using entry_induction with
  | nil => simp [get?, ids, toList]
  | cons other entity rest ih =>
      by_cases h : other = id
      · simp [get?, ids, toList, h]
      · have hne : id ≠ other := fun h' => h h'.symm
        simpa [get?, ids, toList, h, hne] using ih

/-- The identifiers with one more; it is added last unless it is there. -/
def seen (id : String) (ids : List String) : List String :=
  if id ∈ ids then ids else ids ++ [id]

theorem update_ok {ε : Type} {id : String} {f : Entity → Except ε Entity} {entity : Entity}
    {coll : Collection} (hf : f ((coll.get? id).getD .nil) = .ok entity) :
    ∃ coll', coll.update id f = .ok coll' ∧ coll'.ids = seen id coll.ids ∧
      coll'.get? id = some entity ∧ ∀ other, other ≠ id → coll'.get? other = coll.get? other := by
  induction coll using entry_induction with
  | nil =>
      have hf' : f .nil = .ok entity := by simpa [get?] using hf
      refine ⟨cons id entity nil, ?_, by simp [ids, toList, seen], by simp [get?], fun other hne => ?_⟩
      · simp [update, hf', bind, Except.bind, pure, Except.pure]
      · simp [get?, Ne.symm hne]
  | cons held kept rest ih =>
      by_cases h : held = id
      · have hf' : f kept = .ok entity := by simpa [get?, h] using hf
        refine ⟨cons held entity rest, ?_, ?_, by simp [get?, h], fun other hne => ?_⟩
        · simp [update, h, hf', bind, Except.bind, pure, Except.pure]
        · simp [ids, toList, seen, h]
        · simp [get?, h, Ne.symm hne]
      · obtain ⟨rest', hupdate, hids, hget, hothers⟩ := ih (by simpa [get?, h] using hf)
        refine ⟨cons held kept rest', ?_, ?_, by simpa [get?, h] using hget, fun other hne => ?_⟩
        · simp [update, h, hupdate, bind, Except.bind, pure, Except.pure]
        · have hne : id ≠ held := fun h' => h h'.symm
          have hcons : (cons held kept rest').ids = held :: rest'.ids := rfl
          have hcons' : (cons held kept rest).ids = held :: rest.ids := rfl
          rw [hcons, hcons', hids]
          unfold seen
          by_cases hmem : id ∈ rest.ids
          · simp [hmem]
          · simp [hmem, hne]
        · by_cases ho : held = other
          · simp [get?, ho]
          · simp [get?, ho, hothers other hne]

theorem get?_of_mem_toList {id : String} {entity : Entity} {coll : Collection}
    (hnodup : coll.ids.Nodup) (h : (id, entity) ∈ coll.toList) : coll.get? id = some entity := by
  induction coll using entry_induction with
  | nil => simp [toList] at h
  | cons other kept rest ih =>
      obtain ⟨hother, hrest⟩ := List.nodup_cons.mp hnodup
      obtain h | h := List.mem_cons.mp h
      · obtain ⟨rfl, rfl⟩ := Prod.mk.inj h
        simp [get?]
      · have hne : other ≠ id := by
          rintro rfl
          exact hother (List.mem_map.mpr ⟨_, h, rfl⟩)
        simpa [get?, hne] using ih hrest h

end Collection
end EntityGraph
