import EntityGraph.Proofs.Filter.Worded
import EntityGraph.Proofs.Placement.Known

/-!
# Paths over known names

The compiler follows a path over names that it makes up on the way. What it leaves is a trail of known names,
which goes over the edges of the schema that the path names, with a value at its end. A path starts at what
the first name of it stands for as a lambda variable, and else at the filtered entity.
-/
namespace EntityGraph

/-- The edges of the schema that a path goes over. A foreign key at its end stands for the identifier of the
related entity. -/
def Schema.hops (schema : Schema) : EntityType → List String → Except SchemaError (List Hop)
  | _, [] => .ok []
  | T, [last] => do
    let p ← T.property last
    match ← schema.foreignKey? T p with
    | none => return [← schema.hop p]
    | some (related, relatedId) => return [← schema.hop related, ← schema.hop relatedId]
  | T, name :: next :: rest => do
    let p ← T.property name
    let hop ← schema.hop p
    let t ← schema.targetType p
    return hop :: (← schema.hops t (next :: rest))

theorem Schema.hops_cons {schema : Schema} {T t : EntityType} {name : String} {p : Property} {hop : Hop}
    {more : List String} {hops : List Hop} (hmore : more ≠ []) (hp : T.property name = .ok p)
    (hhop : schema.hop p = .ok hop) (ht : schema.targetType p = .ok t) (h : schema.hops t more = .ok hops) :
    schema.hops T (name :: more) = .ok (hop :: hops) := by
  cases more with
  | nil => exact absurd rfl hmore
  | cons next rest => simp [Schema.hops, hp, hhop, ht, h, bind, Except.bind, pure, Except.pure]

/-- Where a path starts, the type of what stands there, and what is left of the path. -/
def Naming.startOf (names : Naming) (position : Position) (entityType : String) :
    List String → Place × String × List String
  | [] => (position.place, entityType, [])
  | first :: rest =>
    match names.resolve position.scope first with
    | .ok found => (found.place, found.entityType, rest)
    | .error _ => (position.place, entityType, first :: rest)

/-- The lambda variables are, with their types, those that the names have in a scope. -/
def FilterScope.Matches (scope : FilterScope) (names : Naming) (inner : Scope) : Prop :=
  ∀ name, scope.lambdas.lookup name = (names.resolve inner name).toOption.map (·.entityType)

theorem Naming.startOf_lambda {names : Naming} {position : Position} {first : String} {found : Namespace}
    (h : names.resolve position.scope first = .ok found) (entityType : String) (rest : List String) :
    names.startOf position entityType (first :: rest) = (found.place, found.entityType, rest) := by
  simp [startOf, h]

theorem Naming.Extends.startOf {names names' : Naming} {position : Position}
    (h : Naming.Extends position.scope.keys.length names names') (entityType : String) (path : List String) :
    names'.startOf position entityType path = names.startOf position entityType path := by
  cases path with
  | nil => rfl
  | cons first rest => simp only [Naming.startOf, h.resolve (le_refl _)]

theorem FilterScope.Matches.startOf {scope : FilterScope} {names : Naming} {position : Position}
    {first : String}
    (h : scope.Matches names position.scope) (hnone : scope.lambdas.lookup first = none) (entityType : String)
    (rest : List String) :
    names.startOf position entityType (first :: rest) = (position.place, entityType, first :: rest) := by
  have hlookup := h first
  cases hresolve : names.resolve position.scope first with
  | error e => simp [Naming.startOf, hresolve]
  | ok found => simp [hnone, hresolve, Except.toOption] at hlookup

namespace Filter

/-- Where a path has led: over a trail of known names, along edges of the schema. -/
structure Cursor.Tracks (schema : Schema) (names : Naming) (position : Position) (start : Place)
    (T : EntityType) (walked : List String) (es : List Edge) (cursor : Cursor) : Prop where
  trail : names.Trail position.scope position.place cursor.branches start es cursor.place
  hops : ∀ {more hops}, more ≠ [] → schema.hops cursor.owner more = .ok hops →
    schema.hops T (walked ++ more) = .ok (es.map (·.hop) ++ hops)
  isOptional : cursor.isOptional = es.any (·.isOptional)
  owner : ∀ p ∈ cursor.owner.properties, cursor.owner ∈ schema.types

/-- A forest has a trail with a value at its end, which stands for a path that starts at `start`. -/
structure ValueAt (schema : Schema) (names : Naming) (position : Position) (start : Place) (T : EntityType)
    (path : List String) (forest : Forest) (compiled : CompiledFilter) (branches : List Branch)
    (es : List Edge) (stop : Place) (b : PropertyBranch) (v : String) : Prop where
  trail : names.Trail position.scope position.place branches start es stop
  isComplex : b.isComplex = false
  foreignKey : b.foreignKey = none
  value : names.value? stop b.name = some v
  way : (forest.below? (branches ++ [.property b])).isSome
  hops : schema.hops T path = .ok (es.map (·.hop) ++ [⟨b.hop.predicate, false⟩])
  clause : compiled.clause = .var v
  mayBeUnbound : compiled.mayBeUnbound = (es.any (·.isOptional) || !b.isMandatory)

/-- A forest leads to the value of a path, from where the path starts. -/
def Traced (schema : Schema) (scope : FilterScope) (position : Position) (names : Naming) (path : List String)
    (forest : Forest) (compiled : CompiledFilter) : Prop :=
  ∃ start type rest T branches es stop b v,
    names.startOf position scope.entityType path = (start, type, rest) ∧ schema.entityType type = .ok T ∧
      ValueAt schema names position start T rest forest compiled branches es stop b v

/-- A run that reads the value of a path. -/
structure Reads (context : FilterContext) (scope : FilterScope) (position : Position) (path : List String)
    (session : Session) (compiled : CompiledFilter) (after : Session) : Prop where
  keeps : session.names.Keeps after.names
  known : compiled.forest.Known after.names position
  traced : scope.Matches session.names position.scope →
    Traced context.schema scope position after.names path compiled.forest compiled

variable {context : FilterContext} {scope : FilterScope} {position : Position} {session after : Session}
  {path : List String}

theorem Traced.mono {schema : Schema} {names names' : Naming} {forest forest' : Forest}
    {compiled : CompiledFilter} (h : Traced schema scope position names path forest compiled)
    (hnames : Naming.Extends position.scope.keys.length names names')
    (hforest : ∀ {path}, (forest.below? path).isSome → (forest'.below? path).isSome) :
    Traced schema scope position names' path forest' compiled := by
  obtain ⟨start, type, rest, T, branches, es, stop, b, v, hstart, htype, hvalue⟩ := h
  exact ⟨start, type, rest, T, branches, es, stop, b, v, (hnames.startOf _ _).trans hstart, htype,
    { hvalue with
      trail := hnames.trail hvalue.trail
      value := hnames.grows.value hvalue.value
      way := hforest hvalue.way }⟩

theorem tracks_start (context : FilterContext) (scope : FilterScope) (position : Position)
    (path : List String) (session : Session) :
    Ends (start context scope position path) session (fun result after => after = session ∧ ∃ type,
        (scope.Matches session.names position.scope →
          session.names.startOf position scope.entityType path = (result.1.place, type, result.2)) ∧
        context.schema.entityType type = .ok result.1.owner ∧
        result.1.Tracks context.schema session.names position result.1.place result.1.owner [] [])
      fun _ => True := by
  unfold start
  rw [ends_bind]
  refine ends_lift fun owner howner => ?_
  have hhere : Cursor.Tracks context.schema session.names position position.place owner [] []
      { branches := [], owner, place := position.place } :=
    ⟨.nil, fun _ h => h, rfl, mem_types_of_entityType howner⟩
  cases path with
  | nil => exact ⟨rfl, scope.entityType, fun _ => rfl, howner, hhere⟩
  | cons first rest =>
      simp only
      split
      · next hnone =>
          exact ⟨rfl, scope.entityType, fun hmatch => hmatch.startOf (Option.isNone_iff_eq_none.mp hnone) _ _,
            howner, hhere⟩
      · simp only [ends_bind, ends_get]
        split
        · trivial
        · next found hfound =>
            rw [ends_bind]
            exact ends_lift fun owner howner =>
              ⟨rfl, found.entityType, fun _ => Naming.startOf_lambda hfound _ _,
              howner, .lambda hfound .nil, fun _ h => h, rfl, mem_types_of_entityType howner⟩

section Steps

variable {start : Place} {T : EntityType} {walked : List String} {es : List Edge}
    (hs : context.schema.Accepted)
include hs

theorem tracks_navigate {cursor : Cursor}
    (hc : cursor.Tracks context.schema session.names position start T walked es) (name : String) :
    Ends (navigate context path cursor name) session (fun next after => session.names.Keeps after.names ∧
        ∃ e p, cursor.owner.property name = .ok p ∧ context.schema.hop p = .ok e.hop ∧
          next.Tracks context.schema after.names position start T (walked ++ [name]) (es ++ [e]))
            fun _ => True := by
  unfold navigate
  rw [ends_bind]
  refine ends_lift fun p hp => ?_
  dsimp only
  split
  · trivial
  · next he =>
      split
      · trivial
      · next hsingle =>
          rw [ends_bind]
          refine ends_lift fun branch hbranch => ?_
          simp only [ends_bind, ends_naming]
          refine ends_lift fun owner howner => ?_
          obtain ⟨hmem, hname⟩ := EntityType.mem_of_property? (EntityType.property_eq_ok.mp hp)
          have hT := hc.owner p hmem
          obtain ⟨b, rfl, hreads⟩ := hs.reads_of_ofProperty hT hmem hbranch
          have he : p.isElementary = false := by simpa using he
          have hsingle : p.isSingle = true := by simpa using hsingle
          have hhop := hreads.relatedHop he
          obtain ⟨hkeeps, hr⟩ := Naming.keeps_relatedPlace session.names cursor.place name
          have htrail := ((hkeeps.extends _).trail hc.trail).concat (b := b) (by simp [hreads.isComplex, he])
            (by rwa [hreads.name, hname])
          refine ⟨hkeeps, b.relatedEdge _, p, hp, hhop, htrail, fun {more hops} hmore h => ?_, ?_,
            mem_types_of_entityType howner⟩
          · rw [List.append_assoc, List.map_append, List.append_assoc]
            exact hc.hops (by simp) (Schema.hops_cons hmore hp hhop howner h)
          · simp [hc.isOptional, PropertyBranch.relatedEdge, hreads.isSingle, hreads.isMandatory, hsingle]

theorem tracks_navigateAll {cursor : Cursor}
    (hc : cursor.Tracks context.schema session.names position start T walked es) (names : List String) :
    Ends (navigateAll context path cursor names) session (fun next after => session.names.Keeps after.names ∧
        ∃ es', next.Tracks context.schema after.names position start T (walked ++ names) es')
          fun _ => True := by
  induction names generalizing cursor session walked es with
  | nil =>
      refine ⟨.refl _, es, ?_⟩
      rwa [List.append_nil]
  | cons name rest ih =>
      unfold navigateAll
      rw [ends_bind]
      refine (tracks_navigate hs hc name).imp (fun next between h => ?_) fun _ => id
      obtain ⟨hkeeps, e, -, -, -, hnext⟩ := h
      refine (ih hnext).imp (fun last after h => ?_) fun _ => id
      obtain ⟨hkeeps', es', hlast⟩ := h
      rw [List.append_assoc] at hlast
      exact ⟨hkeeps.trans hkeeps', es', hlast⟩

theorem reads_readValue {cursor : Cursor} (hkeeps : session.names.Keeps after.names)
    (hc : cursor.Tracks context.schema after.names position start T walked es) {type : String}
    {rest : List String} (hstart : scope.Matches session.names position.scope →
      session.names.startOf position scope.entityType path = (start, type, rest))
    (htype : context.schema.entityType type = .ok T) {p : Property} {name : String}
    (hp : cursor.owner.property name = .ok p) (hown : p.foreignKeyOf = none)
    (hhops : ∀ hop, context.schema.hop p = .ok hop →
      context.schema.hops T rest = .ok (es.map (·.hop) ++ [hop])) :
    Ends (readValue context path cursor p) after (Reads context scope position path session)
      fun _ => True := by
  refine ends_readValue fun he branch hbranch => ?_
  obtain ⟨hmem, -⟩ := EntityType.mem_of_property? (EntityType.property_eq_ok.mp hp)
  have hT := hc.owner p hmem
  obtain ⟨b, rfl, hreads⟩ := hs.reads_of_ofProperty hT hmem hbranch
  obtain ⟨hkeeps', hv⟩ := Naming.keeps_value after.names cursor.place p.name
  have hboth := hkeeps.trans hkeeps'
  have htrail := (hkeeps'.extends _).trail hc.trail
  have hcomplex : b.isComplex = false := by simp [hreads.isComplex, he]
  have hkey : b.foreignKey = none := by
    obtain ⟨-, hkey⟩ | ⟨related, -, t, -, i, -, hop, -, hof, -⟩ := hreads.foreignKey
    · exact hkey
    · simp [hown] at hof
  have hedge : context.schema.hop p = .ok ⟨b.hop.predicate, false⟩ := by
    obtain ⟨hop, hhop⟩ := hs.hop hT hmem
    obtain ⟨-, rfl⟩ | ⟨hcomplex, -⟩ := hs.hop_cases hT hmem hhop
    · rw [hhop, hreads.valueHop he]
    · simp [he] at hcomplex
  rw [← hreads.name] at hv hkeeps' hboth htrail ⊢
  refine ⟨hboth, ?_, fun hmatch => ⟨start, type, rest, T, cursor.branches, es, cursor.place, b, _, ?_, htype,
    ⟨htrail, hcomplex, hkey, hv, Forest.isSome_below?_ofPath _, hhops _ hedge, rfl, ?_⟩⟩⟩
  · rw [Forest.ofPath_append]
    exact htrail.known ⟨⟨_, Branch.target?_value hcomplex hkey hv, trivial⟩, trivial⟩
  · exact ((hboth.extends _).startOf scope.entityType path).trans (hstart hmatch)
  · rw [hc.isOptional, hreads.isMandatory]

theorem tracks_follow (missing : PathFault) :
    Ends (follow context scope position path missing) session (fun reached after =>
      session.names.Keeps after.names ∧ ∃ start type rest T init es,
        (scope.Matches session.names position.scope →
          session.names.startOf position scope.entityType path = (start, type, rest)) ∧
        context.schema.entityType type = .ok T ∧ rest = init ++ [reached.2] ∧
        reached.1.Tracks context.schema after.names position start T init es) fun _ => True := by
  refine ends_follow ((tracks_start context scope position path session).imp
    (fun result between h => ⟨fun _ => trivial, ?_⟩) fun _ => id)
  obtain ⟨cursor, rest⟩ := result
  obtain ⟨rfl, type, hstart, htype, hc⟩ := h
  rintro init last rfl
  refine (tracks_navigateAll hs hc init).imp (fun reached after h => ?_) fun _ => id
  obtain ⟨hkeeps, es, hreached⟩ := h
  rw [List.nil_append] at hreached
  exact ⟨hkeeps, _, type, _, _, init, es, hstart, htype, rfl, hreached⟩

theorem reads_compileProperty (hids : context.schema.OwnIds) :
    Ends (compileProperty context scope position path) session (Reads context scope position path session)
      fun _ => True := by
  refine ends_compileProperty_of fun missing =>
    (tracks_follow hs missing).imp (fun reached after h => ?_) fun _ => id
  obtain ⟨cursor, last⟩ := reached
  obtain ⟨hkeeps, start, type, _, T, init, es, hstart, htype, rfl, hreached⟩ := h
  refine fun p hp => ⟨fun hkey => ?_, fun related relatedId hkey => ?_⟩
  · refine reads_readValue hs hkeeps hreached hstart htype hp ?_ fun hop hhop => ?_
    · obtain ⟨hmem, -⟩ := EntityType.mem_of_property? (EntityType.property_eq_ok.mp hp)
      obtain ⟨hown, -⟩ | ⟨_, -, _, -, _, -, -, -, -, -, -, -, hsome⟩ :=
        hs.foreignKey? (hreached.owner p hmem) hmem
      · exact hown
      · simp [hkey] at hsome
    · refine hreached.hops (by simp) ?_
      simp [Schema.hops, hp, hkey, hhop, bind, Except.bind, pure, Except.pure]
  · refine (tracks_navigate hs hreached related.name).imp (fun next later h hid => ?_) fun _ => id
    obtain ⟨hkeeps', e, p', hp', hhop, htracks⟩ := h
    obtain rfl := Except.ok.inj (hp'.symm.trans (property_of_foreignKey? hkey).1)
    refine reads_readValue hs (hkeeps.trans hkeeps') htracks hstart htype hid ?_ fun hop hhop' => ?_
    · have hfound := EntityType.property_eq_ok.mp hid
      exact hids _ (htracks.owner relatedId (EntityType.mem_of_property? hfound).1) relatedId hfound
    · rw [List.map_append, List.append_assoc]
      refine hreached.hops (by simp) ?_
      simp [Schema.hops, hp, hkey, hhop, hhop', bind, Except.bind, pure, Except.pure]

theorem tracks_compileCollection :
    Ends (compileCollection context scope position path) session (fun result after =>
      session.names.Keeps after.names ∧ ∃ start es,
        after.names.Trail position.scope position.place result.1.branches start es result.1.place)
          fun _ => True := by
  refine ends_compileCollection_of fun missing => (tracks_follow hs missing).imp (fun reached after h => ?_)
    fun _ => id
  obtain ⟨hkeeps, start, _, _, _, _, es, -, -, -, hreached⟩ := h
  exact fun _ _ _ _ _ _ _ => ⟨hkeeps, start, es, hreached.trail⟩

end Steps

end Filter
end EntityGraph
