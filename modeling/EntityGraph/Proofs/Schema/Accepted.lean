import EntityGraph.Branch.Basic
import EntityGraph.Schema.Build
import EntityGraph.Proofs.Algebra.Group

/-!
# Accepted schemas

What the checks of a schema guarantee: types and properties are found by their names, every type has
a mandatory elementary identifier, navigation properties lead to declared types over an edge, and a
foreign key belongs to a single-valued navigation property. So nothing that a query asks of the
declared types of an accepted schema can fail.
-/
namespace EntityGraph

open Sparql (isVariable)

/-- Put together from types whose properties have different names, without any fault. -/
def Schema.Accepted (schema : Schema) : Prop :=
  ∃ prefixes types sets,
    (∀ t ∈ types, EntityType.build t.name t.rdfClass t.properties = .ok t) ∧
      Schema.build prefixes types sets = .ok schema

theorem nodup_of_firstRepeated? {seen names : List String} (h : firstRepeated? seen names = none) :
    names.Nodup ∧ ∀ name ∈ names, name ∉ seen := by
  induction names generalizing seen with
  | nil => simp
  | cons name rest ih =>
      unfold firstRepeated? at h
      split at h
      · simp at h
      · next hseen =>
          obtain ⟨hnodup, hrest⟩ := ih h
          refine ⟨List.nodup_cons.mpr ⟨fun hmem => hrest name hmem List.mem_cons_self, hnodup⟩, ?_⟩
          intro other hother
          obtain rfl | hother := List.mem_cons.mp hother
          · simpa using hseen
          · exact fun hmem => hrest other hother (List.mem_cons_of_mem _ hmem)

theorem find?_eq_of_nodup {α : Type} {key : α → String} {xs : List α} (h : (xs.map key).Nodup)
    {x : α} (hx : x ∈ xs) : xs.find? (fun y => key y == key x) = some x := by
  induction xs with
  | nil => simp at hx
  | cons y rest ih =>
      obtain ⟨hy, hrest⟩ := List.nodup_cons.mp h
      obtain rfl | hx := List.mem_cons.mp hx
      · simp
      · have hne : key y ≠ key x := fun heq => hy (heq ▸ List.mem_map_of_mem hx)
        rw [List.find?_cons_of_neg (by simpa using hne), ih hrest hx]

theorem Name.not_isVariable {name used : String} (h : prefixOf? name = some used) :
    isVariable name = false := by
  dsimp only [prefixOf?] at h
  unfold isVariable
  cases hl : name.toList with
  | nil => simp
  | cons c rest =>
      by_contra hq
      obtain rfl : c = '?' := by simpa using hq
      rw [hl] at h
      split at h
      · simp [isPrefixPart, isLetter] at h
      · simp at h

namespace EntityType

theorem property_eq_ok {T : EntityType} {name : String} {p : Property} :
    T.property name = .ok p ↔ T.property? name = some p := by
  unfold property
  cases T.property? name with
  | some p' => simp
  | none => simp

theorem mem_of_property? {T : EntityType} {name : String} {p : Property}
    (h : T.property? name = some p) : p ∈ T.properties ∧ p.name = name :=
  ⟨List.mem_of_find?_eq_some h, by simpa using List.find?_some h⟩

end EntityType

namespace Schema

theorem types_of_declarationFault? {seen : List String} {types : List EntityType}
    (h : declarationFault? seen types = none) :
    (∀ t ∈ types, t.isElementary = false) ∧ (types.map (·.name)).Nodup ∧
      ∀ t ∈ types, t.name ∉ seen := by
  induction types generalizing seen with
  | nil => simp
  | cons t rest ih =>
      unfold declarationFault? at h
      split at h
      · simp at h
      · next hprim =>
          split at h
          · simp at h
          · next hseen =>
              obtain ⟨hall, hnodup, hrest⟩ := ih h
              refine ⟨List.forall_mem_cons.mpr ⟨by simpa using hprim, hall⟩, ?_, ?_⟩
              · refine List.nodup_cons.mpr ⟨fun hmem => ?_, hnodup⟩
                obtain ⟨t', ht', heq⟩ := List.mem_map.mp hmem
                exact hrest t' ht' (heq ▸ List.mem_cons_self)
              · refine List.forall_mem_cons.mpr ⟨by simpa using hseen, fun t' ht' hmem => ?_⟩
                exact hrest t' ht' (List.mem_cons_of_mem _ hmem)

variable {schema : Schema}

theorem Accepted.checks (hs : schema.Accepted) :
    (∀ t ∈ schema.types, t.isElementary = false ∧ (t.properties.map (·.name)).Nodup) ∧
      (schema.types.map (·.name)).Nodup ∧ schema.fault? = none := by
  obtain ⟨prefixes, types, sets, hbuilt, hok⟩ := hs
  dsimp only [Schema.build] at hok
  split at hok
  · simp at hok
  · next hnone =>
      obtain rfl : _ = schema := by simpa using hok
      obtain ⟨hdecl, hfault⟩ := Option.or_eq_none_iff.mp hnone
      obtain ⟨helem, hnodup, -⟩ := types_of_declarationFault? hdecl
      refine ⟨fun t ht => ⟨helem t ht, ?_⟩, hnodup, hfault⟩
      have := hbuilt t ht
      unfold EntityType.build at this
      split at this
      · simp at this
      · next hrep => exact (nodup_of_firstRepeated? hrep).1

def Declares (schema : Schema) (name : String) : Prop :=
  ∃ used iri, Name.prefixOf? name = some used ∧ (used, iri) ∈ schema.prefixes

theorem Declares.not_isVariable {name : String} (h : schema.Declares name) :
    Sparql.isVariable name = false := by
  obtain ⟨used, -, hused, -⟩ := h
  exact Name.not_isVariable hused

theorem declares_of_nameFault? {type name : String} (h : schema.nameFault? type name = none) :
    schema.Declares name := by
  unfold nameFault? at h
  split at h
  · simp at h
  · next used hused =>
      split at h
      · next hdeclared =>
          obtain ⟨⟨declared, iri⟩, hmem, heq⟩ := List.any_eq_true.mp hdeclared
          obtain rfl : declared = used := by simpa using heq
          exact ⟨declared, iri, hused, hmem⟩
      · simp at h

theorem entityType_ok {name : String} {t : EntityType} (h : schema.entityType name = .ok t)
    (hn : isPrimitive name = false) : t ∈ schema.types ∧ t.name = name := by
  unfold Schema.entityType at h
  rw [hn, if_neg (by simp)] at h
  split at h
  · next t' hfind =>
      obtain rfl : t' = t := by simpa using h
      exact ⟨List.mem_of_find?_eq_some hfind, by simpa using List.find?_some hfind⟩
  · simp at h

namespace Accepted

variable {T : EntityType} {p : Property}

theorem typeFault? (hs : schema.Accepted) (hT : T ∈ schema.types) : schema.typeFault? T = none := by
  have h := hs.checks.2.2
  unfold fault? at h
  exact List.findSome?_eq_none_iff.mp (Option.or_eq_none_iff.mp h).2 T hT

theorem entityType (hs : schema.Accepted) (hT : T ∈ schema.types) :
    schema.entityType T.name = .ok T := by
  obtain ⟨htypes, hnodup, -⟩ := hs.checks
  have hprim : isPrimitive T.name = false := (htypes T hT).1
  unfold Schema.entityType
  rw [hprim, if_neg (by simp), find?_eq_of_nodup hnodup hT]

theorem property? (hs : schema.Accepted) (hT : T ∈ schema.types) (hp : p ∈ T.properties) :
    T.property? p.name = some p :=
  find?_eq_of_nodup (hs.checks.1 T hT).2 hp

theorem typeChecks (hs : schema.Accepted) (hT : T ∈ schema.types) :
    (∃ i, T.property? idName = some i ∧ i.isElementary = true ∧ i.isMandatory = true) ∧
      (∀ c, T.rdfClass = some c → schema.nameFault? T.name c = none) ∧
      ∀ p ∈ T.properties, schema.propertyFault? T p = none := by
  have h := hs.typeFault? hT
  unfold Schema.typeFault? at h
  split at h
  · simp at h
  · next i hi =>
      split at h
      · simp at h
      · next hok =>
          simp only [Bool.or_eq_true, Bool.not_eq_true', not_or, Bool.not_eq_false] at hok
          obtain ⟨hclass, hproperties⟩ := Option.or_eq_none_iff.mp h
          refine ⟨⟨i, hi, hok⟩, fun c hc => ?_, List.findSome?_eq_none_iff.mp hproperties⟩
          rwa [hc, Option.bind_some] at hclass

theorem id (hs : schema.Accepted) (hT : T ∈ schema.types) :
    ∃ i ∈ T.properties, i.name = idName ∧ T.property? idName = some i ∧ i.isElementary = true ∧
      i.isMandatory = true := by
  obtain ⟨⟨i, hi, he, hmandatory⟩, -⟩ := hs.typeChecks hT
  exact ⟨i, List.mem_of_find?_eq_some hi, by simpa using List.find?_some hi, hi, he, hmandatory⟩

theorem declares_rdfClass (hs : schema.Accepted) (hT : T ∈ schema.types) {name : String}
    (hc : T.rdfClass = some name) : schema.Declares name :=
  declares_of_nameFault? ((hs.typeChecks hT).2.1 name hc)

theorem rdfClass (hs : schema.Accepted) (hT : T ∈ schema.types) {name : String}
    (hc : T.rdfClass = some name) : isVariable name = false :=
  (hs.declares_rdfClass hT hc).not_isVariable

theorem checksOf (hs : schema.Accepted) (hT : T ∈ schema.types) (hp : p ∈ T.properties) :
    (∃ t, schema.targetType p = .ok t) ∧ schema.inverseFault? T p = none ∧
      schema.foreignKeyFault? T p = none ∧ schema.nameFault? T.name p.predicate = none := by
  have h := (hs.typeChecks hT).2.2 p hp
  unfold Schema.propertyFault? at h
  split at h
  · simp at h
  · next t ht =>
      obtain ⟨hleft, hkey⟩ := Option.or_eq_none_iff.mp h
      obtain ⟨hname, hinverse⟩ := Option.or_eq_none_iff.mp hleft
      exact ⟨⟨t, ht⟩, hinverse, hkey, hname⟩

theorem declares_predicate (hs : schema.Accepted) (hT : T ∈ schema.types) (hp : p ∈ T.properties) :
    schema.Declares p.predicate :=
  declares_of_nameFault? (hs.checksOf hT hp).2.2.2

theorem targetType (hs : schema.Accepted) (hT : T ∈ schema.types) (hp : p ∈ T.properties)
    (hn : p.isElementary = false) : ∃ t ∈ schema.types, schema.targetType p = .ok t := by
  obtain ⟨⟨t, ht⟩, -⟩ := hs.checksOf hT hp
  exact ⟨t, (entityType_ok ht hn).1, ht⟩

theorem hop (hs : schema.Accepted) (hT : T ∈ schema.types) (hp : p ∈ T.properties) :
    ∃ h, schema.hop p = .ok h := by
  obtain ⟨-, hinv, -⟩ := hs.checksOf hT hp
  unfold Schema.inverseFault? at hinv
  unfold Schema.hop
  cases hd : p.isDirect with
  | true => exact ⟨_, by rw [if_pos rfl]⟩
  | false =>
      simp only [hd, Bool.false_eq_true, if_false] at hinv
      rw [if_neg (by simp)]
      split at hinv
      · simp at hinv
      · split at hinv
        · simp at hinv
        · next inverse hok => exact ⟨_, by rw [hok]; rfl⟩

/-- A foreign key belongs to a single-valued navigation property and copies an identifier. -/
theorem foreignKey? (hs : schema.Accepted) (hT : T ∈ schema.types) (hp : p ∈ T.properties) :
    (p.foreignKeyOf = none ∧ schema.foreignKey? T p = .ok none) ∨
      ∃ related ∈ T.properties, ∃ t ∈ schema.types, ∃ relatedId ∈ t.properties,
        p.isElementary = true ∧ p.foreignKeyOf = some related.name ∧
        related.isElementary = false ∧ related.isSingle = true ∧
        schema.targetType related = .ok t ∧ t.property? idName = some relatedId ∧
        schema.foreignKey? T p = .ok (some (related, relatedId)) := by
  obtain ⟨-, -, hkey, -⟩ := hs.checksOf hT hp
  unfold Schema.foreignKeyFault? at hkey
  unfold Schema.foreignKey?
  cases hf : p.foreignKeyOf with
  | none => exact Or.inl ⟨rfl, rfl⟩
  | some name =>
      simp only [hf] at hkey
      split at hkey
      · simp at hkey
      · next helem =>
          split at hkey
          · simp at hkey
          · next related hrelated =>
              split at hkey
              · simp at hkey
              · next hrel =>
                  simp only [Bool.or_eq_true, Bool.not_eq_true', not_or, Bool.not_eq_true,
                    Bool.not_eq_false] at hrel helem
                  have hprop : T.property? name = some related := by
                    unfold EntityType.property at hrelated
                    split at hrelated
                    · next q hq => rw [hq]; simpa using hrelated
                    · simp at hrelated
                  have hmem : related ∈ T.properties := List.mem_of_find?_eq_some hprop
                  have hname : related.name = name := by simpa using List.find?_some hprop
                  obtain ⟨t, ht, htarget⟩ := hs.targetType hT hmem hrel.1
                  obtain ⟨i, hi, -, hid, -, -⟩ := hs.id ht
                  refine Or.inr ⟨related, hmem, t, ht, i, hi, helem, by rw [hname], hrel.1, hrel.2,
                    htarget, hid, ?_⟩
                  have hid' : t.property idName = .ok i := by
                    unfold EntityType.property
                    rw [hid]
                  simp only [hrelated, htarget, hid', bind, Except.bind, pure, Except.pure]

theorem entitySet (hs : schema.Accepted) {set : String} (h : schema.entitySet set = .ok T) :
    T ∈ schema.types := by
  have hfault := hs.checks.2.2
  unfold fault? at hfault
  have hsets := (Option.or_eq_none_iff.mp (Option.or_eq_none_iff.mp hfault).1).2
  unfold Schema.entitySet at h
  split at h
  · next type hlookup =>
      have hmem : (set, type) ∈ schema.sets := by
        obtain ⟨l₁, l₂, heq, -⟩ := List.lookup_eq_some_iff.mp hlookup
        simp [heq]
      have hset := List.findSome?_eq_none_iff.mp hsets _ hmem
      simp only [setFault?, h] at hset
      refine (entityType_ok h ?_).1
      cases hprim : isPrimitive type with
      | false => rfl
      | true =>
          unfold Schema.entityType at h
          rw [if_pos hprim] at h
          obtain rfl : _ = T := by simpa using h
          simp [EntityType.isElementary, hprim] at hset
  · simp at h

end Accepted
end Schema
end EntityGraph
