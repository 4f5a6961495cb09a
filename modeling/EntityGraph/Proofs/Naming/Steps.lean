import EntityGraph.Proofs.Naming.Survey

/-!
# Making up names

Each way to make up a name takes a sound survey to a sound one that knows more. An entity that a
navigation property leads to has the type that the schema gives it, and is reached over the edge of
the property; a value is reached over its own edge, and a foreign key is the identifier of the
related entity.
-/
namespace EntityGraph.Survey

variable {schema : Schema} {w w' w'' : Survey} {names : Naming} {q r : Place} {T t : EntityType}
  {p : Property}

/-- A sound survey with these names that knows more. -/
structure Becomes (schema : Schema) (w : Survey) (names : Naming) (w' : Survey) : Prop where
  le : w ≤ w'
  sound : w'.Sound schema
  keys : w'.keys = w.keys
  names_eq : w'.names = names

theorem Becomes.refl (hw : w.Sound schema) : Becomes schema w w.names w :=
  ⟨le_refl w, hw, rfl, rfl⟩

theorem Becomes.trans {names names' : Naming} {w₁ w₂ : Survey} (h : Becomes schema w names w₁)
    (h' : Becomes schema w₁ names' w₂) : Becomes schema w names' w₂ :=
  ⟨h.le.trans h'.le, h'.sound, h'.keys.trans h.keys, h'.names_eq⟩

theorem Sound.related_of (hs : schema.Accepted) (hw : w.Sound schema)
    (hT : w.chart.kind q.var = some T) (hp : p ∈ T.properties)
    (hr : w.names.related? q p.name = some r) : p.isElementary = false ∧ ∃ t h,
      schema.targetType p = .ok t ∧ schema.hop p = .ok h ∧ w.chart.kind r.var = some t ∧
        w.chart.link r.var = some (q.var, h) := by
  obtain ⟨T', p', t, h, hT', hp', he, ht, hh, hk, hl⟩ := hw.related hr
  obtain rfl : T = T' := Option.some.inj (hT.symm.trans hT')
  obtain rfl : p = p' := Option.some.inj ((hs.property? (hw.declared hT) hp).symm.trans hp')
  exact ⟨he, t, h, ht, hh, hk, hl⟩

theorem Sound.value_of (hs : schema.Accepted) (hw : w.Sound schema)
    (hT : w.chart.kind q.var = some T) (hp : p ∈ T.properties) {v : String}
    (hv : w.names.value? q p.name = some v) :
    (p.foreignKeyOf = none ∧ w.chart.link v = some (q.var, ⟨p.predicate, false⟩)) ∨
      ∃ navigation r, p.foreignKeyOf = some navigation ∧ w.names.related? q navigation = some r ∧
        w.names.value? r idName = some v := by
  obtain ⟨T', p', hT', hp', -, hrest⟩ := hw.value hv
  obtain rfl : T = T' := Option.some.inj (hT.symm.trans hT')
  obtain rfl : p = p' := Option.some.inj ((hs.property? (hw.declared hT) hp).symm.trans hp')
  exact hrest

theorem Sound.relatedPlace (hs : schema.Accepted) (hw : w.Sound schema)
    (hT : w.chart.kind q.var = some T) (hp : p ∈ T.properties) (he : p.isElementary = false) :
    ∃ w', Becomes schema w (w.names.relatedPlace q p.name).2 w' ∧
      w'.names.related? q p.name = some (w.names.relatedPlace q p.name).1 := by
  have hTs := hw.declared hT
  cases hold : w.names.related? q p.name with
  | some r =>
      simp only [Naming.relatedPlace, hold]
      exact ⟨w, .refl hw, hold⟩
  | none =>
      obtain ⟨t, ht, htarget⟩ := hs.targetType hTs hp he
      obtain ⟨h, hh⟩ := hs.hop hTs hp
      have hedge : T.HasEdge schema h (some t) := .related hp he htarget hh
      have hw₁ : (w.insert (some (q.var, h)) (some t)).Sound schema := by
        refine hw.insert (fun T' hT' => ?_) fun r' h' hl => ?_
        · obtain rfl : t = T' := by simpa using hT'
          exact ht
        · obtain ⟨rfl, rfl⟩ : q.var = r' ∧ h = h' := by simpa using hl
          exact ⟨T, hT, hedge⟩
      have hT₁ : (w.insert (some (q.var, h)) (some t)).chart.kind q.var = some T :=
        hw.kind_le (le_insert w) hT
      have hw₂ := hw₁.addRelated (r := ⟨w.names.next⟩) hT₁ (hs.property? hTs hp) he htarget hh
        insert_kind_self insert_link_self
      refine ⟨_, ⟨(le_insert w).trans (le_addRelated _ _ _ _), hw₂, rfl, ?_⟩, ?_⟩
      · simp only [Naming.relatedPlace, hold]
        rfl
      · have hold₁ : (w.insert (some (q.var, h)) (some t)).names.related? q p.name = none := hold
        rw [addRelated_related?, hold₁, Option.none_or, if_pos rfl]
        simp only [Naming.relatedPlace, hold]
        rfl

theorem Sound.ownValue (hs : schema.Accepted) (hw : w.Sound schema)
    (hT : w.chart.kind q.var = some T) (hp : p ∈ T.properties) (he : p.isElementary = true)
    (hf : p.foreignKeyOf = none) :
    ∃ w', Becomes schema w (w.names.value q p.name).2 w' ∧
      w'.names.value? q p.name = some (w.names.value q p.name).1 := by
  have hTs := hw.declared hT
  cases hold : w.names.value? q p.name with
  | some v =>
      simp only [Naming.value, hold]
      exact ⟨w, .refl hw, hold⟩
  | none =>
      have hw₁ : (w.insert (some (q.var, ⟨p.predicate, false⟩)) none).Sound schema := by
        refine hw.insert (by simp) fun r' h' hl => ?_
        obtain ⟨rfl, rfl⟩ : q.var = r' ∧ ⟨p.predicate, false⟩ = h' := by simpa using hl
        exact ⟨T, hT, .value hp he hf⟩
      have hT₁ : (w.insert (some (q.var, ⟨p.predicate, false⟩)) none).chart.kind q.var = some T :=
        hw.kind_le (le_insert w) hT
      have hw₂ := hw₁.addValue (v := variableName w.names.next) hT₁ (hs.property? hTs hp) he
        (Or.inl ⟨hf, insert_link_self⟩)
      refine ⟨_, ⟨(le_insert w).trans (le_addValue _ _ _ _), hw₂, rfl, ?_⟩, ?_⟩
      · simp only [Naming.value, hold]
        rfl
      · have hold₁ : (w.insert (some (q.var, ⟨p.predicate, false⟩)) none).names.value? q p.name =
            none := hold
        rw [addValue_value?, hold₁, Option.none_or, if_pos rfl]
        simp only [Naming.value, hold]
        rfl

/-- A foreign key gets the variable of the identifier that it copies. -/
theorem Sound.link (hs : schema.Accepted) (hw : w.Sound schema)
    (hT : w.chart.kind q.var = some T) (hp : p ∈ T.properties) (he : p.isElementary = true)
    {navigation v : String} (hf : p.foreignKeyOf = some navigation)
    (hr : w.names.related? q navigation = some r) (hv : w.names.value? r idName = some v) :
    ∃ w', Becomes schema w (w.names.link q p.name v).2 w' ∧
      w'.names.value? q p.name = some v := by
  cases hold : w.names.value? q p.name with
  | some v' =>
      simp only [Naming.link, hold]
      obtain ⟨hnone, -⟩ | ⟨navigation', r', hf', hr', hv'⟩ := hw.value_of hs hT hp hold
      · simp [hf] at hnone
      · obtain rfl : navigation = navigation' := Option.some.inj (hf.symm.trans hf')
        obtain rfl : r = r' := Option.some.inj (hr.symm.trans hr')
        obtain rfl : v = v' := Option.some.inj (hv.symm.trans hv')
        exact ⟨w, .refl hw, hold⟩
  | none =>
      have hw₁ := hw.addValue (v := v) hT (hs.property? (hw.declared hT) hp) he
        (Or.inr ⟨navigation, r, hf, hr, hv⟩)
      refine ⟨_, ⟨le_addValue _ _ _ _, hw₁, rfl, ?_⟩, ?_⟩
      · simp only [Naming.link, hold]
        rfl
      · rw [addValue_value?, hold, Option.none_or, if_pos rfl]

theorem Sound.fresh (hw : w.Sound schema) :
    ∃ w', Becomes schema w w.names.fresh.2 w' ∧ w'.chart.link w.names.fresh.1 = none ∧
      w'.chart.kind w.names.fresh.1 = none :=
  ⟨w.insert none none, ⟨le_insert w, hw.insert (by simp) (by simp), rfl, rfl⟩, insert_link_self,
    insert_kind_self⟩

/-- A lambda variable is bound in a new scope to an entity that is reached from nowhere. -/
def enter (w : Survey) (outer : Scope) (key : ScopeKey) (lambda : String) (t : EntityType) : Survey where
  names := w.names.bound (outer.enter key) lambda t.name
  chart := w.chart.insert w.names.next none (some t)
  keys := Insert.insert key w.keys

variable {outer : Scope} {key : ScopeKey}

theorem le_enter (hkey : key ∉ w.keys) (outer : Scope) (lambda : String) (t : EntityType) :
    w ≤ w.enter outer key lambda t where
  next := Nat.le_succ _
  link := insert_link
  kind := insert_kind
  related h := h
  value h := h
  keys := Set.subset_insert key w.keys
  resolve _ hscope name := Naming.resolve_bound_of_known hkey hscope name

theorem Sound.enter (hw : w.Sound schema) (ht : t ∈ schema.types)
    (houter : ∀ k ∈ outer.keys, k ∈ w.keys) (lambda : String) :
    (w.enter outer key lambda t).Sound schema := by
  have h : (w.insert none (some t)).Sound schema := hw.insert (by simpa using ht) (by simp)
  exact {
    ordered := h.ordered, declared := h.declared, edge := h.edge, linked := h.linked,
    kinded := h.kinded, related := h.related, value := h.value
    scopes := hw.scopes.bound houter }

end EntityGraph.Survey
