import EntityGraph.Filter.Compile
import EntityGraph.Proofs.Schema.Accepted

/-!
# Runs of the filter compiler

A run of the compiler ends with a value and the session after it, or with an error. What it ends with
is found step by step, along the text of the program.
-/
namespace EntityGraph.Filter

variable {α β : Type} {session : Session} {good : α → Session → Prop} {bad : FilterError → Prop}

/-- The run ends well with `good`, or with an error that is `bad`. -/
def Ends (x : FilterM α) (session : Session) (good : α → Session → Prop) (bad : FilterError → Prop) :
    Prop :=
  match x.run.run session with
  | (.ok a, after) => good a after
  | (.error e, _) => bad e

theorem run_bind (x : FilterM α) (f : α → FilterM β) (session : Session) :
    (x >>= f).run.run session =
      match x.run.run session with
      | (.ok a, after) => (f a).run.run after
      | (.error e, after) => (.error e, after) := by
  rw [ExceptT.run_bind, StateT.run_bind]
  cases h : x.run.run session with
  | mk result after =>
      cases result with
      | ok a => rfl
      | error e => rfl

theorem ends_bind {x : FilterM α} {f : α → FilterM β} {good : β → Session → Prop} :
    Ends (x >>= f) session good bad ↔
      Ends x session (fun a after => Ends (f a) after good bad) bad := by
  unfold Ends
  rw [run_bind]
  cases h : x.run.run session with
  | mk result after =>
      cases result with
      | ok a => rfl
      | error e => rfl

@[simp] theorem ends_pure {a : α} : Ends (pure a) session good bad ↔ good a session := Iff.rfl

@[simp] theorem ends_throw {e : FilterError} :
    Ends (throw e : FilterM α) session good bad ↔ bad e := Iff.rfl

@[simp] theorem ends_get {good : Session → Session → Prop} :
    Ends (get : FilterM Session) session good bad ↔ good session session := Iff.rfl

@[simp] theorem ends_set {after : Session} {good : PUnit → Session → Prop} :
    Ends (set after : FilterM PUnit) session good bad ↔ good ⟨⟩ after := Iff.rfl

@[simp] theorem ends_naming {step : Naming → α × Naming} :
    Ends (naming step) session good bad ↔
      good (step session.names).1 { session with names := (step session.names).2 } := Iff.rfl

theorem ends_liftSchema {x : Except SchemaError α} :
    Ends (liftSchema x) session good bad ↔
      match x with
      | .ok a => good a session
      | .error e => bad (.schema e) := by
  cases x with
  | ok a => rfl
  | error e => rfl

@[simp] theorem ends_liftSchema_ok {a : α} :
    Ends (liftSchema (.ok a)) session good bad ↔ good a session := Iff.rfl

@[simp] theorem ends_liftSchema_error {e : SchemaError} :
    Ends (liftSchema (.error e) : FilterM α) session good bad ↔ bad (.schema e) := Iff.rfl

theorem Ends.imp {x : FilterM α} {good' : α → Session → Prop} {bad' : FilterError → Prop}
    (h : Ends x session good bad) (hgood : ∀ a after, good a after → good' a after)
    (hbad : ∀ e, bad e → bad' e) : Ends x session good' bad' := by
  unfold Ends at h ⊢
  split at h
  · exact hgood _ _ h
  · exact hbad _ h

theorem Ends.and {x : FilterM α} {good' : α → Session → Prop} {bad' : FilterError → Prop}
    (h : Ends x session good bad) (h' : Ends x session good' bad') :
    Ends x session (fun a after => good a after ∧ good' a after) fun e => bad e ∧ bad' e := by
  unfold Ends at h h' ⊢
  generalize x.run.run session = ended at h h' ⊢
  obtain ⟨result, after⟩ := ended
  cases result with
  | ok a => exact ⟨h, h'⟩
  | error e => exact ⟨h, h'⟩

theorem Ends.and_run {x : FilterM α} (h : Ends x session good bad) :
    Ends x session (fun a after => good a after ∧ x.run.run session = (.ok a, after)) bad := by
  unfold Ends at h ⊢
  generalize x.run.run session = ended at h ⊢
  obtain ⟨result, after⟩ := ended
  cases result with
  | ok a => exact ⟨h, rfl⟩
  | error e => exact h

theorem Ends.of_run {x : FilterM α} {a : α} {after : Session} (h : Ends x session good bad)
    (hrun : x.run.run session = (.ok a, after)) : good a after := by
  unfold Ends at h
  rw [hrun] at h
  exact h

theorem ends_lift {x : Except SchemaError α} (h : ∀ a, x = .ok a → good a session) :
    Ends (liftSchema x) session good fun _ => True := by
  rw [ends_liftSchema]
  cases x with
  | ok a => exact h a rfl
  | error e => trivial

section Any

variable {context : FilterContext} {position : Position}

/-- The scope has a key of its own, and the lambda variable is defined there. -/
theorem ends_openScope_iff {outer : Scope} {lambda elementType : String}
    {good : ScopeKey × Scope → Session → Prop} :
    Ends (openScope context outer lambda elementType) session good bad ↔
      match session.names.define (outer.enter (context.key session.drawn)) lambda elementType with
      | .ok (_, names) =>
        good (context.key session.drawn, outer.enter (context.key session.drawn)) ⟨names, session.drawn + 1⟩
      | .error e => bad (.scope e) := by
  unfold openScope
  simp only [ends_bind, ends_get, ends_set]
  cases session.names.define (outer.enter (context.key session.drawn)) lambda elementType with
  | ok _ => rfl
  | error _ => rfl

theorem ends_placeJoin_iff (hrules : context.rules = Rule.builtin) {join : Forest}
    {good : Pattern → Session → Prop} :
    Ends (placeJoin context position join) session good bad ↔
      match (join.place Rule.builtin position session.names).failure with
      | some e => bad (.placement e)
      | none => good ⟨position.place.var, (join.place Rule.builtin position session.names).body⟩
          { session with names := (join.place Rule.builtin position session.names).names } := by
  unfold placeJoin
  rw [hrules]
  simp only [ends_bind, ends_naming]
  cases (join.place Rule.builtin position session.names).failure with
  | some _ => rfl
  | none => rfl

end Any

section Paths

variable {context : FilterContext} {scope : FilterScope} {position : Position} {path : List String}

theorem property_of_foreignKey? {schema : Schema} {owner : EntityType} {p related relatedId : Property}
    (h : schema.foreignKey? owner p = .ok (some (related, relatedId))) :
    owner.property related.name = .ok related ∧
      ∃ t, schema.targetType related = .ok t ∧ t.property idName = .ok relatedId := by
  unfold Schema.foreignKey? at h
  split at h
  · simp at h
  · next name hname =>
      cases hrelated : owner.property name with
      | error e => simp [hrelated, bind, Except.bind] at h
      | ok found =>
          simp only [hrelated, bind, Except.bind] at h
          cases htarget : schema.targetType found with
          | error e => simp [htarget] at h
          | ok t =>
              simp only [htarget] at h
              cases hid : t.property idName with
              | error e => simp [hid] at h
              | ok i =>
                  simp only [hid, pure, Except.pure, Except.ok.injEq, Option.some.injEq, Prod.mk.injEq] at h
                  obtain ⟨rfl, rfl⟩ := h
                  obtain ⟨-, hsame⟩ := EntityType.mem_of_property? (EntityType.property_eq_ok.mp hrelated)
                  exact ⟨hsame ▸ hrelated, t, htarget, hid⟩

theorem ends_navigate_target (cursor : Cursor) (name : String) :
    Ends (navigate context path cursor name) session (fun next _ =>
      ∃ p, cursor.owner.property name = .ok p ∧ context.schema.targetType p = .ok next.owner)
        fun _ => True := by
  unfold navigate
  rw [ends_bind]
  refine ends_lift fun p hp => ?_
  dsimp only
  split
  · trivial
  · split
    · trivial
    · rw [ends_bind]
      refine ends_lift fun branch _ => ?_
      simp only [ends_bind, ends_naming]
      exact ends_lift fun owner howner => ⟨p, hp, howner⟩

theorem ends_readValue {cursor : Cursor} {p : Property} {good : CompiledFilter → Session → Prop}
    (h : p.isElementary = true → ∀ branch, Branch.ofProperty context.schema cursor.owner p = .ok branch →
      good {
        clause := .var (session.names.value cursor.place p.name).1
        forest := .ofPath (cursor.branches ++ [branch]) .nil
        mayBeUnbound := cursor.isOptional || !p.isMandatory }
        { session with names := (session.names.value cursor.place p.name).2 }) :
    Ends (readValue context path cursor p) session good fun _ => True := by
  unfold readValue
  split
  · trivial
  · next he =>
      rw [ends_bind]
      refine ends_lift fun branch hbranch => ?_
      simp only [ends_bind, ends_naming, ends_pure]
      exact h (by simpa using he) branch hbranch

theorem ends_follow {missing : PathFault} {good : Cursor × String → Session → Prop}
    (h : Ends (start context scope position path) session (fun result between =>
      (result.2 = [] → bad (.schema (.invalidPath path missing))) ∧
        ∀ init last, result.2 = init ++ [last] →
          Ends (navigateAll context path result.1 init) between
            (fun cursor => good (cursor, last)) bad) bad) :
    Ends (follow context scope position path missing) session good bad := by
  unfold follow
  rw [ends_bind]
  refine h.imp (fun result between h => ?_) fun _ => id
  obtain ⟨cursor, rest⟩ := result
  obtain ⟨hnone, hsome⟩ := h
  dsimp only at hnone hsome ⊢
  split
  · next hlast =>
      apply hnone
      exact List.getLast?_eq_none_iff.mp hlast
  · next last hlast =>
      obtain ⟨init, rfl⟩ := List.getLast?_eq_some_iff.mp hlast
      rw [List.dropLast_concat, ends_bind]
      exact hsome init last rfl

/-- A value is read where a path ends, or one step further for a foreign key. -/
theorem ends_compileProperty_of {good : CompiledFilter → Session → Prop}
    (h : ∀ missing, Ends (follow context scope position path missing) session (fun reached after =>
      ∀ p, reached.1.owner.property reached.2 = .ok p →
        (context.schema.foreignKey? reached.1.owner p = .ok none →
          Ends (readValue context path reached.1 p) after good fun _ => True) ∧
        ∀ related relatedId, context.schema.foreignKey? reached.1.owner p = .ok (some (related, relatedId)) →
          Ends (navigate context path reached.1 related.name) after
            (fun next later => next.owner.property idName = .ok relatedId →
              Ends (readValue context path next relatedId) later good fun _ => True)
            fun _ => True) fun _ => True) :
    Ends (compileProperty context scope position path) session good fun _ => True := by
  unfold compileProperty
  rw [ends_bind]
  refine (h .noProperty).imp (fun reached after h => ?_) fun _ => id
  rw [ends_bind]
  refine ends_lift fun p hp => ?_
  rw [ends_bind]
  refine ends_lift fun key? hkey => ?_
  cases key? with
  | none => exact (h p hp).1 hkey
  | some key =>
      dsimp only
      rw [ends_bind]
      refine (((h p hp).2 _ _ hkey).and (ends_navigate_target reached.1 key.1.name)).imp
        (fun next later h => ?_) fun _ _ => trivial
      obtain ⟨hread, p', hp', hnext⟩ := h
      obtain ⟨hrelated, t, ht, hid⟩ := property_of_foreignKey? hkey
      obtain rfl := Except.ok.inj (hp'.symm.trans hrelated)
      obtain rfl := Except.ok.inj (hnext.symm.trans ht)
      exact hread hid

theorem ends_compileCollection_of {good : Cursor × Property × Hop × EntityType → Session → Prop}
    (h : ∀ missing, Ends (follow context scope position path missing) session (fun reached after =>
      ∀ p hop element, reached.1.owner.property reached.2 = .ok p → p.isSingle = false →
        context.schema.hop p = .ok hop → context.schema.targetType p = .ok element →
          good (reached.1, p, hop, element) after) fun _ => True) :
    Ends (compileCollection context scope position path) session good fun _ => True := by
  unfold compileCollection
  rw [ends_bind]
  refine (h .noCollection).imp (fun reached after h => ?_) fun _ => id
  rw [ends_bind]
  refine ends_lift fun p hp => ?_
  split
  · trivial
  · next hsingle =>
      rw [ends_bind]
      refine ends_lift fun hop hhop => ?_
      rw [ends_bind]
      exact ends_lift fun element helement => h p hop element hp (by simpa using hsingle) hhop helement

end Paths
end EntityGraph.Filter
