import EntityGraph.Proofs.Filter.Tracks

/-!
# The variables of paths

The names say which variable stands for the value at the end of a path, if all that the path leads over has
been named: that of a foreign key is the variable of the identifier of the related entity. A condition reads
the path there. Where the names did not have that variable before, the compiler made it up, and where they had
it, they stay as they are.
-/
namespace EntityGraph

open Sparql (Clause)

/-- The variable of the value at the end of a path from an entity. -/
def Schema.valueVar? (schema : Schema) (names : Naming) : EntityType → Place → List String → Option String
  | _, _, [] => none
  | T, q, [last] => do
    let p ← T.property? last
    match p.foreignKeyOf with
    | none => names.value? q p.name
    | some navigation =>
      let r ← names.related? q navigation
      names.value? r idName
  | T, q, name :: next :: rest => do
    let p ← T.property? name
    let t ← (schema.targetType p).toOption
    let r ← names.related? q name
    schema.valueVar? names t r (next :: rest)

/-- The variable of the value at the end of a path of a filter, which may start with a lambda variable. -/
def FilterScope.valueVar? (scope : FilterScope) (schema : Schema) (position : Position) (names : Naming) :
    List String → Option String
  | [] => none
  | first :: rest =>
    if (scope.lambdas.lookup first).isNone then do
      let T ← (schema.entityType scope.entityType).toOption
      schema.valueVar? names T position.place (first :: rest)
    else do
      let found ← (names.resolve position.scope first).toOption
      let T ← (schema.entityType found.entityType).toOption
      schema.valueVar? names T found.place rest

section Lookup

variable {schema : Schema} {names names' : Naming} {T t : EntityType} {q r : Place} {p : Property}
  {name v : String} {more : List String}

theorem Schema.valueVar?_cons (hmore : more ≠ []) : schema.valueVar? names T q (name :: more) =
    (T.property? name).bind fun p => (schema.targetType p).toOption.bind fun t =>
      (names.related? q name).bind fun r => schema.valueVar? names t r more := by
  cases more with
  | nil => exact absurd rfl hmore
  | cons next rest => rfl

theorem Schema.valueVar?_value (hp : T.property? name = some p) (hown : p.foreignKeyOf = none) :
    schema.valueVar? names T q [name] = names.value? q p.name := by
  simp [valueVar?, hp, hown]

theorem Schema.valueVar?_foreignKey (hp : T.property? name = some p) {navigation : String}
    (hkey : p.foreignKeyOf = some navigation) : schema.valueVar? names T q [name] =
      (names.related? q navigation).bind fun r => names.value? r idName := by
  simp [valueVar?, hp, hkey]

theorem Naming.Grows.valueVar? (h : names.Grows names') {path : List String}
    (hv : schema.valueVar? names T q path = some v) : schema.valueVar? names' T q path = some v := by
  induction path generalizing T q with
  | nil => simp [Schema.valueVar?] at hv
  | cons name more ih =>
      by_cases hmore : more = []
      · subst hmore
        cases hp : T.property? name with
        | none => simp [Schema.valueVar?, hp] at hv
        | some p =>
            cases hkey : p.foreignKeyOf with
            | none =>
                rw [Schema.valueVar?_value hp hkey] at hv ⊢
                exact h.value hv
            | some navigation =>
                rw [Schema.valueVar?_foreignKey hp hkey] at hv ⊢
                obtain ⟨r, hr, hv⟩ := Option.bind_eq_some_iff.mp hv
                exact Option.bind_eq_some_iff.mpr ⟨r, h.related hr, h.value hv⟩
      · rw [Schema.valueVar?_cons hmore] at hv ⊢
        obtain ⟨p, hp, hv⟩ := Option.bind_eq_some_iff.mp hv
        obtain ⟨t, ht, hv⟩ := Option.bind_eq_some_iff.mp hv
        obtain ⟨r, hr, hv⟩ := Option.bind_eq_some_iff.mp hv
        simp only [hp, ht, h.related hr, Option.bind_some]
        exact ih hv

theorem Naming.Keeps.valueVar? (h : names.Keeps names') {scope : FilterScope} {position : Position}
    {path : List String} (hv : scope.valueVar? schema position names path = some v) :
    scope.valueVar? schema position names' path = some v := by
  cases path with
  | nil => simp [FilterScope.valueVar?] at hv
  | cons first rest =>
      simp only [FilterScope.valueVar?] at hv ⊢
      split at hv
      · next hnone =>
          obtain ⟨T, hT, hv⟩ := Option.bind_eq_some_iff.mp hv
          rw [if_pos hnone, hT]
          exact h.grows.valueVar? hv
      · next hsome =>
          obtain ⟨found, hfound, hv⟩ := Option.bind_eq_some_iff.mp hv
          obtain ⟨T, hT, hv⟩ := Option.bind_eq_some_iff.mp hv
          rw [if_neg hsome, h.resolve, hfound]
          simp only [Option.bind_eq_bind, Option.bind_some, hT]
          exact h.grows.valueVar? hv

theorem Schema.foreignKeyOf_of_foreignKey? {key? : Option (Property × Property)}
    (h : schema.foreignKey? T p = .ok key?) : p.foreignKeyOf = key?.map (·.1.name) ∧
      ∀ key, key? = some key → key.2.name = idName := by
  constructor
  · unfold Schema.foreignKey? at h
    split at h
    · next hown =>
        obtain rfl := Except.ok.inj h
        exact hown
    · next navigation hkey =>
        cases hrelated : T.property navigation with
        | error e => simp [hrelated, bind, Except.bind] at h
        | ok related =>
            obtain ⟨-, hname⟩ := EntityType.mem_of_property? (EntityType.property_eq_ok.mp hrelated)
            cases htarget : schema.targetType related with
            | error e => simp [hrelated, htarget, bind, Except.bind] at h
            | ok t =>
                cases hid : t.property idName with
                | error e => simp [hrelated, htarget, hid, bind, Except.bind] at h
                | ok i =>
                    obtain rfl : some (related, i) = key? := by
                      simpa [hrelated, htarget, hid, bind, Except.bind, pure, Except.pure] using h
                    rw [hkey, ← hname, Option.map_some]
  · rintro ⟨related, relatedId⟩ rfl
    obtain ⟨-, t, -, hid⟩ := Filter.property_of_foreignKey? h
    exact (EntityType.mem_of_property? (EntityType.property_eq_ok.mp hid)).2

theorem Naming.value_of_value? (h : names.value? q name = some v) : names.value q name = (v, names) := by
  simp [Naming.value, h]

theorem Naming.relatedPlace_of_related? (h : names.related? q name = some r) :
    names.relatedPlace q name = (r, names) := by
  simp [Naming.relatedPlace, h]

end Lookup

namespace Filter

variable {context : FilterContext} {scope : FilterScope} {position : Position} {session after : Session}
  {path : List String}

/-- A run that reads a variable: it is what is `found` in the names afterwards, and these are as they were if
something was found in them `before`. -/
def Finds (session : Session) (before : Option String) (found : Naming → Option String)
    (compiled : CompiledFilter) (after : Session) : Prop :=
  session.names.Keeps after.names ∧ (∃ v, compiled.clause = .var v ∧ found after.names = some v) ∧
    (before.isSome → after = session)

theorem finds_navigate (cursor : Cursor) (name : String) :
    Ends (navigate context path cursor name) session (fun next after => session.names.Keeps after.names ∧
      after.names.related? cursor.place name = some next.place ∧
      (∃ p, cursor.owner.property? name = some p ∧ context.schema.targetType p = .ok next.owner) ∧
      ((session.names.related? cursor.place name).isSome → after = session)) fun _ => True := by
  unfold navigate
  rw [ends_bind]
  refine ends_lift fun p hp => ?_
  dsimp only
  split
  · trivial
  · split
    · trivial
    · rw [ends_bind]
      refine ends_lift fun branch _ => ?_
      simp only [ends_bind, ends_naming]
      refine ends_lift fun owner howner => ?_
      obtain ⟨hkeeps, hr⟩ := Naming.keeps_relatedPlace session.names cursor.place name
      refine ⟨hkeeps, hr, ⟨p, EntityType.property_eq_ok.mp hp, howner⟩, fun hsome => ?_⟩
      obtain ⟨r, hknown⟩ := Option.isSome_iff_exists.mp hsome
      rw [Naming.relatedPlace_of_related? hknown]

theorem finds_navigateAll (cursor : Cursor) (walk : List String) :
    Ends (navigateAll context path cursor walk) session (fun next after => session.names.Keeps after.names ∧
      (∀ {later more}, after.names.Grows later → more ≠ [] →
        context.schema.valueVar? later cursor.owner cursor.place (walk ++ more) =
          context.schema.valueVar? later next.owner next.place more) ∧
      ∀ {more}, more ≠ [] →
        (context.schema.valueVar? session.names cursor.owner cursor.place (walk ++ more)).isSome →
          after = session) fun _ => True := by
  induction walk generalizing cursor session with
  | nil => exact ⟨.refl _, fun _ _ => rfl, fun _ _ => rfl⟩
  | cons name rest ih =>
      unfold navigateAll
      rw [ends_bind]
      refine (finds_navigate cursor name).imp (fun next between h => ?_) fun _ => id
      obtain ⟨hkeeps, hr, ⟨p, hp, ht⟩, hsame⟩ := h
      have hstep : ∀ {later : Naming} {more : List String}, between.names.Grows later → more ≠ [] →
          context.schema.valueVar? later cursor.owner cursor.place (name :: rest ++ more) =
            context.schema.valueVar? later next.owner next.place (rest ++ more) := by
        intro later more hlater hmore
        rw [List.cons_append, Schema.valueVar?_cons (by simp [hmore])]
        simp only [hp, ht, hlater.related hr, Except.toOption, Option.bind_some]
      refine (ih next).imp (fun last after h => ?_) fun _ => id
      obtain ⟨hkeeps', hwalk, hsame'⟩ := h
      refine ⟨hkeeps.trans hkeeps', fun hlater hmore => ?_, fun {more} hmore hsome => ?_⟩
      · rw [hstep (hkeeps'.grows.trans hlater) hmore, hwalk hlater hmore]
      · -- what is found from here was named step by step
        have hknown : (session.names.related? cursor.place name).isSome := by
          rw [List.cons_append, Schema.valueVar?_cons (by simp [hmore])] at hsome
          cases hr' : session.names.related? cursor.place name with
          | some r => rfl
          | none => simp [hp, hr'] at hsome
        obtain rfl := hsame hknown
        exact hsame' hmore (hstep (.refl _) hmore ▸ hsome)

theorem finds_readValue {cursor : Cursor} {p : Property} {before : Option String}
    {found : Naming → Option String} (hkeeps : session.names.Keeps after.names)
    (hfound : ∀ later, after.names.Keeps later → found later = later.value? cursor.place p.name)
    (hsame : before.isSome → after = session ∧ (after.names.value? cursor.place p.name).isSome) :
    Ends (readValue context path cursor p) after (Finds session before found) fun _ => True := by
  refine ends_readValue fun _ branch _ => ?_
  obtain ⟨hkeeps', hv⟩ := Naming.keeps_value after.names cursor.place p.name
  refine ⟨hkeeps.trans hkeeps', ⟨_, rfl, (hfound _ hkeeps').trans hv⟩, fun hsome => ?_⟩
  obtain ⟨rfl, hknown⟩ := hsame hsome
  obtain ⟨v, hknown⟩ := Option.isSome_iff_exists.mp hknown
  simp only [Naming.value_of_value? hknown]

theorem finds_start (context : FilterContext) (scope : FilterScope) (position : Position) (path : List String)
    (session : Session) :
    Ends (start context scope position path) session (fun result after => after = session ∧
      (result.2 ≠ [] → ∀ later, session.names.Keeps later →
        scope.valueVar? context.schema position later path =
          context.schema.valueVar? later result.1.owner result.1.place result.2)) fun _ => True := by
  unfold start
  rw [ends_bind]
  refine ends_lift fun owner howner => ?_
  cases path with
  | nil => exact ⟨rfl, fun hne => absurd rfl hne⟩
  | cons first rest =>
      simp only
      split
      · next hnone =>
          exact ⟨rfl, fun _ _ _ => by simp [FilterScope.valueVar?, hnone, howner, Except.toOption]⟩
      · next hsome =>
          simp only [ends_bind, ends_get]
          split
          · trivial
          · next found hfound =>
              rw [ends_bind]
              refine ends_lift fun owner howner => ⟨rfl, fun _ later hlater => ?_⟩
              have hresolve := (hlater.resolve position.scope first).trans hfound
              simp [FilterScope.valueVar?, hsome, hresolve, howner, Except.toOption]

/-- A path is read where the names have the variable of its value. -/
theorem finds_compileProperty (context : FilterContext) (scope : FilterScope) (position : Position)
    (path : List String) (session : Session) :
    Ends (compileProperty context scope position path) session
      (Finds session (scope.valueVar? context.schema position session.names path)
        fun names => scope.valueVar? context.schema position names path) fun _ => True := by
  refine ends_compileProperty_of fun missing =>
    ends_follow ((finds_start context scope position path session).imp
    (fun result between h => ⟨fun _ => trivial, ?_⟩) fun _ => id)
  obtain ⟨cursor, rest⟩ := result
  obtain ⟨rfl, hstart⟩ := h
  rintro init last rfl
  have hstart := hstart (by simp)
  refine (finds_navigateAll cursor init).imp (fun reached after h => ?_) fun _ => id
  obtain ⟨hkeeps, hwalk, hsame⟩ := h
  have hfound : ∀ later, after.names.Keeps later → scope.valueVar? context.schema position later path =
      context.schema.valueVar? later reached.owner reached.place [last] := by
    intro later hlater
    calc scope.valueVar? context.schema position later path = _ := hstart later (hkeeps.trans hlater)
      _ = _ := hwalk hlater.grows (by simp)
  have hknown : (scope.valueVar? context.schema position between.names path).isSome → after = between ∧
      (context.schema.valueVar? after.names reached.owner reached.place [last]).isSome := by
    intro hsome
    obtain rfl := hsame (by simp) (hstart _ (.refl _) ▸ hsome)
    exact ⟨rfl, hfound _ (.refl _) ▸ hsome⟩
  refine fun p hp => ⟨fun hkey => ?_, fun related relatedId hkey => ?_⟩
  · have hvalue : ∀ names q, context.schema.valueVar? names reached.owner q [last] = names.value? q p.name :=
      fun _ _ => Schema.valueVar?_value (EntityType.property_eq_ok.mp hp)
        (Schema.foreignKeyOf_of_foreignKey? hkey).1
    exact finds_readValue hkeeps (fun later hlater => (hfound later hlater).trans (hvalue _ _)) fun hsome =>
      ⟨(hknown hsome).1, hvalue _ _ ▸ (hknown hsome).2⟩
  · obtain ⟨hkeyOf, hid⟩ := Schema.foreignKeyOf_of_foreignKey? hkey
    have hvalue : ∀ names q, context.schema.valueVar? names reached.owner q [last] =
        (names.related? q related.name).bind fun r => names.value? r idName :=
      fun _ _ => Schema.valueVar?_foreignKey (EntityType.property_eq_ok.mp hp) hkeyOf
    refine (finds_navigate reached related.name).imp (fun next later h _ => ?_) fun _ => id
    obtain ⟨hkeeps', hr, -, hsame'⟩ := h
    refine finds_readValue (hkeeps.trans hkeeps') (fun final hfinal => ?_) fun hsome => ?_
    · rw [hfound _ (hkeeps'.trans hfinal), hvalue, hfinal.related hr, Option.bind_some, hid _ rfl]
    · obtain ⟨rfl, hlast⟩ := hknown hsome
      obtain ⟨v, hlast⟩ := Option.isSome_iff_exists.mp (hvalue after.names reached.place ▸ hlast)
      obtain ⟨r, hr', hv⟩ := Option.bind_eq_some_iff.mp hlast
      obtain rfl := hsame' (by rw [hr']; rfl)
      obtain rfl := Option.some.inj (hr.symm.trans hr')
      exact ⟨rfl, by rw [hid _ rfl, hv]; rfl⟩

end Filter
end EntityGraph
