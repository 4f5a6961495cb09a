import EntityGraph.Proofs.Placement.Step

/-!
# Closed schemas

An accepted schema is closed under everything that a query asks of it: the target of a property is
there, a navigation property has an edge of its own or goes backwards over an edge that leads to its own
type, and a foreign key leads to the identifier of a related entity. The predicates and classes that are
found on the way are prefixed names with declared prefixes.
-/
namespace EntityGraph.Schema

variable {schema : Schema}

theorem exists_rdf_mem_withRdf (prefixes : List (String × String)) :
    ∃ iri, (rdfPrefix, iri) ∈ withRdf prefixes := by
  unfold withRdf
  split
  · next hdeclared =>
      obtain ⟨⟨declared, iri⟩, hmem, heq⟩ := List.any_eq_true.mp hdeclared
      obtain rfl : declared = rdfPrefix := by simpa using heq
      exact ⟨iri, hmem⟩
  · exact ⟨rdfNamespace, List.mem_append_right _ List.mem_cons_self⟩

namespace Accepted

variable {T : EntityType} {p : Property}

theorem declares_rdfType (hs : schema.Accepted) : schema.Declares "rdf:type" := by
  obtain ⟨prefixes, types, sets, -, hok⟩ := hs
  dsimp only [Schema.build] at hok
  split at hok
  · simp at hok
  · obtain rfl := Except.ok.inj hok
    obtain ⟨iri, hmem⟩ := exists_rdf_mem_withRdf prefixes
    exact ⟨rdfPrefix, iri, by decide, hmem⟩

/-- The edge of a property is its own, or that of a direct property of its target which leads back. -/
theorem hop_cases (hs : schema.Accepted) (hT : T ∈ schema.types) (hp : p ∈ T.properties) {hop : Hop}
    (h : schema.hop p = .ok hop) :
    (p.isDirect = true ∧ hop = ⟨p.predicate, false⟩) ∨
      p.isElementary = false ∧ ∃ t ∈ schema.types, schema.targetType p = .ok t ∧ ∃ back ∈ t.properties,
        p.inverseOf = some back.name ∧ back.isDirect = true ∧ back.target = T.name ∧
          hop = ⟨back.predicate, true⟩ := by
  unfold Schema.hop at h
  split at h
  · next hdirect => exact Or.inl ⟨hdirect, (Except.ok.inj h).symm⟩
  · next hdirect =>
      obtain ⟨-, hinverse, -⟩ := hs.checksOf hT hp
      unfold Schema.inverseFault? at hinverse
      rw [if_neg hdirect] at hinverse
      split at hinverse
      · simp at hinverse
      · next helem =>
          have helem : p.isElementary = false := by simpa using helem
          obtain ⟨t, ht, htarget⟩ := hs.targetType hT hp helem
          cases hname : p.inverseOf with
          | none => simp [Property.isDirect, hname] at hdirect
          | some name =>
              simp only [inverseProperty, hname, htarget, bind, Except.bind] at h hinverse
              cases hfound : t.property name with
              | error e => simp [hfound] at h
              | ok back =>
                  obtain ⟨hmem, rfl⟩ := EntityType.mem_of_property? (EntityType.property_eq_ok.mp hfound)
                  simp only [hfound] at h hinverse
                  obtain rfl := Except.ok.inj h
                  split at hinverse
                  · next hback =>
                      obtain ⟨htype, hdirect⟩ := Bool.and_eq_true_iff.mp hback
                      exact Or.inr ⟨helem, t, ht, htarget, back, hmem, rfl, hdirect, beq_iff_eq.mp htype, rfl⟩
                  · simp at hinverse

theorem hop_predicate (hs : schema.Accepted) (hT : T ∈ schema.types) (hp : p ∈ T.properties) {hop : Hop}
    (h : schema.hop p = .ok hop) : ∃ t ∈ schema.types, ∃ p' ∈ t.properties, hop.predicate = p'.predicate := by
  obtain ⟨-, rfl⟩ | ⟨-, t, ht, -, back, hback, -, -, -, rfl⟩ := hs.hop_cases hT hp h
  · exact ⟨T, hT, p, hp, rfl⟩
  · exact ⟨t, ht, back, hback, rfl⟩

theorem declares_hop (hs : schema.Accepted) (hT : T ∈ schema.types) (hp : p ∈ T.properties) {hop : Hop}
    (h : schema.hop p = .ok hop) : schema.Declares hop.predicate := by
  obtain ⟨t, ht, p', hp', heq⟩ := hs.hop_predicate hT hp h
  exact heq ▸ hs.declares_predicate ht hp'

end Accepted

/-- Whatever is asked for a property of a type is there. -/
structure ClosedAt (schema : Schema) (T : EntityType) (p : Property) : Prop where
  target : ∃ t, schema.targetType p = .ok t
  /-- Only navigation properties are followed backwards, over an edge that leads to their own type. -/
  hop : ∃ hop, schema.hop p = .ok hop ∧ (hop.isInverse = true → p.isElementary = false ∧
    ∃ t ∈ schema.types, schema.targetType p = .ok t ∧ ∃ back ∈ t.properties, back.isDirect = true ∧
      back.target = T.name ∧ hop.predicate = back.predicate)
  /-- A foreign key leads over a single-valued navigation property to a type with an identifier. -/
  foreignKey : ∃ key?, schema.foreignKey? T p = .ok key? ∧ ∀ name, p.foreignKeyOf = some name →
    ∃ related ∈ T.properties, ∃ t ∈ schema.types, ∃ relatedId ∈ t.properties,
      key? = some (related, relatedId) ∧ related.name = name ∧ related.isElementary = false ∧
      related.isSingle = true ∧ schema.targetType related = .ok t ∧ relatedId.name = idName ∧
      relatedId.isElementary = true ∧ relatedId.isMandatory = true
  branch : ∃ b, Branch.ofProperty schema T p = .ok b

theorem Accepted.closedAt (hs : schema.Accepted) {T : EntityType} (hT : T ∈ schema.types) {p : Property}
    (hp : p ∈ T.properties) : schema.ClosedAt T p where
  target := (hs.checksOf hT hp).1
  hop := by
    obtain ⟨hop, hhop⟩ := hs.hop hT hp
    refine ⟨hop, hhop, fun hinverse => ?_⟩
    obtain ⟨-, rfl⟩ | ⟨helem, t, ht, htarget, back, hback, -, hdirect, hto, rfl⟩ := hs.hop_cases hT hp hhop
    · simp at hinverse
    · exact ⟨helem, t, ht, htarget, back, hback, hdirect, hto, rfl⟩
  foreignKey := by
    obtain ⟨hnone, hkey⟩ | ⟨related, hrelated, t, ht, relatedId, hid, -, hname, helem, hsingle,
      htarget, hfound, hkey⟩ := hs.foreignKey? hT hp
    · exact ⟨none, hkey, by simp [hnone]⟩
    · refine ⟨_, hkey, fun name hof => ?_⟩
      obtain rfl := Option.some.inj (hname.symm.trans hof)
      obtain ⟨i, -, hiname, hi, hvalue, hmandatory⟩ := hs.id ht
      obtain rfl := Option.some.inj (hi.symm.trans hfound)
      exact ⟨related, hrelated, t, ht, i, hid, rfl, rfl, helem, hsingle, htarget, hiname, hvalue, hmandatory⟩
  branch := by
    obtain ⟨b, hb, -⟩ := hs.ofProperty hT hp
    exact ⟨_, hb⟩

end EntityGraph.Schema
