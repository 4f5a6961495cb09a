import EntityGraph.Proofs.Placement.Trees

/-!
# What variables are made up for

A number is made up once, for the value of an entity or for the entity that a navigation property leads
to. So different navigation properties lead to different entities, and different values have different
variables, except that a foreign key has the variable of the identifier that it copies.
-/
namespace EntityGraph

namespace Naming

variable {names names' names'' : Naming} {source source' source'' : Nat → Option (Place × String)}
  {q r : Place} {name v : String}

/-- Where the numbers come from: the entry that each of them was made up for. -/
structure Sourced (names : Naming) (source : Nat → Option (Place × String)) : Prop where
  related : ∀ {q name r}, names.related? q name = some r →
    r.number < names.next ∧ source r.number = some (q, name)
  value : ∀ {q name v}, names.value? q name = some v → ∃ k < names.next, v = variableName k ∧
    (source k = some (q, name) ∨
      ∃ navigation r, names.related? q navigation = some r ∧ names.value? r idName = some v)

/-- The names with their sources after a step: numbers in use keep their source. -/
structure Resourced (names : Naming) (source : Nat → Option (Place × String)) (names' : Naming)
    (source' : Nat → Option (Place × String)) : Prop where
  sourced : names'.Sourced source'
  next : names.next ≤ names'.next
  same : ∀ k < names.next, source' k = source k

theorem Resourced.refl (h : names.Sourced source) : Resourced names source names source :=
  ⟨h, le_refl _, fun _ _ => rfl⟩

theorem Resourced.trans (h : Resourced names source names' source')
    (h' : Resourced names' source' names'' source'') : Resourced names source names'' source'' where
  sourced := h'.sourced
  next := h.next.trans h'.next
  same k hk := by
    calc source'' k = source' k := h'.same k (hk.trans_le h.next)
      _ = source k := h.same k hk

theorem Sourced.insert (h : names.Sourced source) (entry : Place × String) :
    ({ names with next := names.next + 1 } : Naming).Sourced
      (Function.update source names.next (some entry)) where
  related hr := by
    obtain ⟨hlt, hsource⟩ := h.related hr
    exact ⟨hlt.trans (Nat.lt_succ_self _), (Function.update_of_ne hlt.ne _ _).trans hsource⟩
  value hv := by
    obtain ⟨k, hk, rfl, hsource⟩ := h.value hv
    refine ⟨k, hk.trans (Nat.lt_succ_self _), rfl, hsource.imp_left fun hsource => ?_⟩
    exact (Function.update_of_ne hk.ne _ _).trans hsource

theorem Sourced.relatedPlace (h : names.Sourced source) (q : Place) (name : String) :
    ∃ source', Resourced names source (names.relatedPlace q name).2 source' := by
  unfold Naming.relatedPlace
  cases hold : names.related? q name with
  | some r => exact ⟨source, .refl h⟩
  | none =>
      have hnew := h.insert (q, name)
      have hlookup := fun q' name' => lookup_append_singleton names.related (q, name) (q', name') ⟨names.next⟩
      refine ⟨Function.update source names.next (some (q, name)),
        ⟨fun {q' name' r} hr => ?_, fun {q' name' v} hv => ?_⟩, Nat.le_succ _,
        fun _ hk => Function.update_of_ne hk.ne _ _⟩
      · obtain hold | ⟨rfl, rfl, rfl, -⟩ := lookup_of_append (x := Place.mk names.next) hr
        · exact hnew.related hold
        · exact ⟨Nat.lt_succ_self _, Function.update_self ..⟩
      · obtain ⟨k, hk, hvar, hsource⟩ := hnew.value hv
        refine ⟨k, hk, hvar, hsource.imp_right ?_⟩
        rintro ⟨navigation, r, hr, hid⟩
        exact ⟨navigation, r, (hlookup q' navigation).trans (Option.or_eq_some_iff.mpr (Or.inl hr)), hid⟩

/-- An entry for a variable that was made up for it, or that the identifier of a related entity has. -/
theorem Sourced.addValue (h : names.Sourced source) {k : Nat} (hk : k < names.next)
    (hsource : source k = some (q, name) ∨ ∃ navigation r, names.related? q navigation = some r ∧
      names.value? r idName = some (variableName k)) :
    ({ names with values := names.values ++ [((q, name), variableName k)] } : Naming).Sourced source where
  related hr := h.related hr
  value {q' name' v} hv := by
    have hlookup := fun q' name' =>
      lookup_append_singleton names.values (q, name) (q', name') (variableName k)
    have hkeep : ∀ {q' name' v}, names.value? q' name' = some v →
        (names.values ++ [((q, name), variableName k)]).lookup (q', name') = some v :=
      fun {q' name' v} hv => (hlookup q' name').trans (Option.or_eq_some_iff.mpr (Or.inl hv))
    obtain hold | ⟨rfl, rfl, rfl, -⟩ := lookup_of_append hv
    · obtain ⟨k', hk', hvar, hsource'⟩ := h.value hold
      refine ⟨k', hk', hvar, hsource'.imp_right ?_⟩
      rintro ⟨navigation, r, hr, hid⟩
      exact ⟨navigation, r, hr, hkeep hid⟩
    · refine ⟨k, hk, rfl, hsource.imp_right ?_⟩
      rintro ⟨navigation, r, hr, hid⟩
      exact ⟨navigation, r, hr, hkeep hid⟩

theorem Sourced.value_made (h : names.Sourced source) (q : Place) (name : String) :
    ∃ source', Resourced names source (names.value q name).2 source' := by
  unfold Naming.value
  cases hold : names.value? q name with
  | some v => exact ⟨source, .refl h⟩
  | none =>
      refine ⟨Function.update source names.next (some (q, name)),
        (h.insert (q, name)).addValue (k := names.next) (Nat.lt_succ_self _) (Or.inl ?_), Nat.le_succ _,
        fun _ hk => Function.update_of_ne hk.ne _ _⟩
      exact Function.update_self ..

theorem Sourced.link (h : names.Sourced source) {navigation key idVar : String}
    (hr : names.related? q navigation = some r) (hv : names.value? r idName = some idVar) :
    Resourced names source (names.link q key idVar).2 source := by
  unfold Naming.link
  cases names.value? q key with
  | some kept => exact .refl h
  | none =>
      obtain ⟨k, hk, rfl, -⟩ := h.value hv
      exact ⟨h.addValue hk (Or.inr ⟨navigation, r, hr, hv⟩), le_refl _, fun _ _ => rfl⟩

end Naming

section Placement

open Naming (Resourced)

variable {names : Naming} {source : Nat → Option (Place × String)} {position : Position}

theorem Branch.placement_sourced {branch : Branch} {placement : Placement} (h : names.Sourced source)
    (hplaced : branch.placement position names = .ok placement) :
    ∃ source', Resourced names source placement.names source' := by
  cases branch with
  | property b =>
      cases hc : b.isComplex with
      | true =>
          rw [placement_related hc] at hplaced
          obtain rfl := Except.ok.inj hplaced
          exact h.relatedPlace _ _
      | false =>
          cases hk : b.foreignKey with
          | none =>
              rw [placement_value hc hk] at hplaced
              obtain rfl := Except.ok.inj hplaced
              exact h.value_made _ _
          | some key =>
              rw [placement_foreignKey hc hk rfl rfl] at hplaced
              obtain rfl := Except.ok.inj hplaced
              obtain ⟨source₁, h₁⟩ := h.relatedPlace position.place key.navigation
              obtain ⟨source₂, h₂⟩ := h₁.sourced.value_made
                (names.relatedPlace position.place key.navigation).1 idName
              have hrelated := (Naming.keeps_relatedPlace names position.place key.navigation).2
              obtain ⟨hkeeps, hid⟩ := Naming.keeps_value
                (names.relatedPlace position.place key.navigation).2
                (names.relatedPlace position.place key.navigation).1 idName
              exact ⟨source₂, (h₁.trans h₂).trans (h₂.sourced.link (hkeeps.related hrelated) hid)⟩
  | lambda name type =>
      simp only [Branch.placement] at hplaced
      split at hplaced
      · simp at hplaced
      · obtain rfl := Except.ok.inj hplaced
        exact ⟨source, .refl h⟩
  | any a =>
      simp only [Branch.placement] at hplaced
      split at hplaced
      · simp at hplaced
      · obtain rfl := Except.ok.inj hplaced
        exact ⟨source, .refl h⟩

theorem Forest.place_sourced (forest : Forest) (position : Position) (h : names.Sourced source) :
    ∃ source', Resourced names source (forest.place Rule.builtin position names).names source' := by
  induction forest generalizing position names source with
  | nil => exact ⟨source, .refl h⟩
  | cons branch below rest ihBelow ih =>
      rw [place_cons]
      cases hplaced : branch.placement position names with
      | error e => exact ⟨source, .refl h⟩
      | ok placement =>
          obtain ⟨source₁, h₁⟩ := Branch.placement_sourced h hplaced
          obtain ⟨source₂, h₂⟩ := ihBelow placement.position h₁.sourced
          simp only
          split
          · exact ⟨source₂, h₁.trans h₂⟩
          · obtain ⟨source₃, h₃⟩ := ih position h₂.sourced
            exact ⟨source₃, (h₁.trans h₂).trans h₃⟩

end Placement
end EntityGraph
