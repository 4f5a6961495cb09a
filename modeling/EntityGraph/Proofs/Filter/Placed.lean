import EntityGraph.Proofs.Filter.Tracks
import EntityGraph.Proofs.Read.Conforms

/-!
# The variables of a condition are bound

A condition names the variables at the ends of its paths when it is compiled; the pattern that binds them is
placed later, over another walk of the names. Both agree: the names that compiling a filter leaves are all
that placing its branches asks for, and for every path outside of an `any` there is a chain of edges in the
pattern, the edges of the schema that the path goes over, which ends at the variable that stands for the path.
It goes over an optional edge just if the value is known not to be always there.
-/
namespace EntityGraph

open Sparql (Clause)

namespace Filter

/-- The paths that stand outside of all `any`. -/
def paths : Filter → List (List String)
  | property path => [path]
  | and left right => left.paths ++ right.paths
  | or left right => left.paths ++ right.paths
  | eq left right => left.paths ++ right.paths
  | parentheses inner => inner.paths
  | _ => []

/-- What stands for these paths in the condition that a filter is compiled to. -/
def operands : Filter → Clause → List Clause
  | property _, clause => [clause]
  | and left right, .and l r => left.operands l ++ right.operands r
  | or left right, .or l r => left.operands l ++ right.operands r
  -- operands that may be unbound are also equal if both of them are
  | eq left right, .equal l r => left.operands l ++ right.operands r
  | eq left right, .or (.equal l r) _ => left.operands l ++ right.operands r
  | parentheses inner, clause => inner.operands clause
  | _, _ => []

/-- What these paths are compiled to in a run, those of a right operand after the left one. -/
def values (context : FilterContext) (scope : FilterScope) (position : Position) :
    Filter → Session → List (List String × CompiledFilter)
  | property path, session =>
    match (compileProperty context scope position path).run.run session with
    | (.ok compiled, _) => [(path, compiled)]
    | (.error _, _) => []
  | and left right, session => left.values context scope position session ++
      right.values context scope position ((left.compile context scope position).run.run session).2
  | or left right, session => left.values context scope position session ++
      right.values context scope position ((left.compile context scope position).run.run session).2
  | eq left right, session => left.values context scope position session ++
      right.values context scope position ((left.compile context scope position).run.run session).2
  | parentheses inner, session => inner.values context scope position session
  | _, _ => []

/-- The pattern at `root` has a chain over the edges of the schema from `start`, along the path, to the
variable of the value. -/
structure BoundBy (schema : Schema) (root start : Place) (T : EntityType) (path : List String) (body : Body)
    (compiled : CompiledFilter) (es : List Edge) : Prop where
  chain : body.Chain root.var start.var es
  triples : ∀ t ∈ Edge.triples start.var es, t ∈ (Pattern.mk root.var body).group.triples
  hops : schema.hops T path = .ok (es.map (·.hop))
  last : ∃ e, es.getLast? = some e ∧ compiled.clause = .var e.target
  optional : compiled.mayBeUnbound = true ↔ ∃ e ∈ es, e.isOptional = true

/-- The value of a path is bound in the pattern, from where the path starts. -/
def Bound (schema : Schema) (scope : FilterScope) (position : Position) (names : Naming) (path : List String)
    (compiled : CompiledFilter) (body : Body) : Prop :=
  ∃ start type rest T es, names.startOf position scope.entityType path = (start, type, rest) ∧
    schema.entityType type = .ok T ∧ BoundBy schema position.place start T rest body compiled es

variable {context : FilterContext} {scope : FilterScope} {position : Position} {session after : Session}
  {path : List String}

/-- A run that leaves known names: its branches can be placed with them, and lead to the values
of its paths. -/
structure Placeable (context : FilterContext) (f : Filter) (scope : FilterScope) (position : Position)
    (session : Session) (compiled : CompiledFilter) (after : Session) : Prop where
  later : Naming.Extends position.scope.keys.length session.names after.names
  known : compiled.forest.Known after.names position
  paths : (f.values context scope position session).map (·.1) = f.paths
  operands : (f.values context scope position session).map (·.2.clause) = f.operands compiled.clause
  traced : scope.Matches session.names position.scope → ∀ result ∈ f.values context scope position session,
    Traced context.schema scope position after.names result.1 compiled.forest result.2

theorem operands_nullSafeEqual (left right : Filter) (l r : Clause) (mayBeUnbound : Bool) :
    (eq left right).operands (.nullSafeEqual l r mayBeUnbound) = left.operands l ++ right.operands r := by
  unfold Clause.nullSafeEqual
  split
  · rfl
  · rfl

section Conditions

variable {f left right : Filter} {result : CompiledFilter → CompiledFilter → CompiledFilter}

theorem Placeable.both (hpaths : f.paths = left.paths ++ right.paths)
    (hforest : ∀ l r, (result l r).forest = l.forest.merge r.forest)
    (hoperands : ∀ l r, f.operands (result l r).clause = left.operands l.clause ++ right.operands r.clause)
    (hvalues : f.values context scope position session = left.values context scope position session ++
      right.values context scope position ((left.compile context scope position).run.run session).2)
    (hl : Ends (left.compile context scope position) session (Placeable context left scope position session)
      fun _ => True)
    (hr : ∀ between, Ends (right.compile context scope position) between
      (Placeable context right scope position between) fun _ => True) :
    Ends (do
        return result (← left.compile context scope position) (← right.compile context scope position))
      session (Placeable context f scope position session) fun _ => True := by
  rw [ends_bind]
  refine hl.and_run.imp (fun l between h => ?_) fun _ => id
  obtain ⟨hl, hrun⟩ := h
  rw [hrun] at hvalues
  rw [ends_bind]
  refine (hr between).imp (fun r after hr => ⟨hl.later.trans hr.later, ?_, ?_, ?_, ?_⟩) fun _ => id
  · rw [hforest]
    exact (hl.known.extends hr.later).merge hr.known
  · rw [hpaths, hvalues, List.map_append, hl.paths, hr.paths]
  · rw [hoperands, hvalues, List.map_append, hl.operands, hr.operands]
  · intro hmatch found hfound
    rw [hforest]
    rw [hvalues] at hfound
    obtain hfound | hfound := List.mem_append.mp hfound
    · exact (hl.traced hmatch found hfound).mono hr.later fun h => Forest.isSome_below?_merge_left h _
    · have hmatch' : scope.Matches between.names position.scope := fun name =>
        (hmatch name).trans (by rw [hl.later.resolve (le_refl _)])
      exact (hr.traced hmatch' found hfound).mono ⟨.refl _, fun _ _ => rfl⟩
        fun h => Forest.isSome_below?_merge_right _ h

theorem Placeable.plain {clause : Clause} {names : Naming} (hkeeps : session.names.Keeps names)
    (hpaths : f.paths = []) (hoperands : f.operands clause = [])
    (hvalues : f.values context scope position session = [])
    (mayBeUnbound : Bool) :
    Placeable context f scope position session { clause, mayBeUnbound } { session with names } where
  later := hkeeps.extends _
  known := trivial
  paths := by rw [hpaths, hvalues, List.map_nil]
  operands := by rw [hoperands, hvalues, List.map_nil]
  traced _ _ h := by simp [hvalues] at h

theorem later_openScope (outer : Scope) (name entityType : String) :
    Ends (openScope context outer name entityType) session (fun result after =>
      result.2 = outer.enter result.1 ∧ Naming.Extends outer.keys.length session.names after.names)
      fun _ => True := by
  rw [ends_openScope_iff]
  split
  · next place names hdefine => exact ⟨rfl, Naming.extends_define (Nat.lt_succ_self _) hdefine⟩
  · trivial

theorem keeps_placeJoin (hrules : context.rules = Rule.builtin) (join : Forest) :
    Ends (placeJoin context position join) session (fun _ after => session.names.Keeps after.names)
      fun _ => True := by
  rw [ends_placeJoin_iff hrules]
  split
  · trivial
  · exact Forest.place_keeps

theorem placeable_compile (hs : context.schema.Accepted) (hids : context.schema.OwnIds)
    (hrules : context.rules = Rule.builtin) (f : Filter) :
    Ends (f.compile context scope position) session (Placeable context f scope position session)
      fun _ => True := by
  induction f generalizing session scope position with
  | string value => exact .plain (.refl _) rfl rfl rfl _
  | boolean value => exact .plain (.refl _) rfl rfl rfl _
  | null =>
      have hkeeps : session.names.Keeps session.names.fresh.2 := ⟨id, id, rfl⟩
      exact .plain hkeeps rfl rfl rfl _
  | number value =>
      unfold compile
      split
      · exact .plain (.refl _) rfl rfl rfl _
      · trivial
  | and left right ihl ihr =>
      exact Placeable.both rfl (fun _ _ => rfl) (fun _ _ => rfl) rfl ihl fun _ => ihr
  | or left right ihl ihr =>
      exact Placeable.both rfl (fun _ _ => rfl) (fun _ _ => rfl) rfl ihl fun _ => ihr
  | eq left right ihl ihr =>
      exact Placeable.both rfl (fun _ _ => rfl)
        (fun _ _ => operands_nullSafeEqual _ _ _ _ _) rfl ihl fun _ => ihr
  | parentheses inner ih => exact ih.imp (fun _ _ h => { h with }) fun _ => id
  | property path =>
      refine (reads_compileProperty hs hids).and_run.imp (fun compiled after h => ?_) fun _ => id
      obtain ⟨h, hrun⟩ := h
      have hvalues : (property path).values context scope position session = [(path, compiled)] := by
        simp only [values, hrun]
      refine ⟨h.keeps.extends _, h.known, ?_, ?_, fun hmatch result hresult => ?_⟩
      · rw [hvalues]
        rfl
      · rw [hvalues]
        rfl
      · rw [hvalues] at hresult
        obtain rfl := List.mem_singleton.mp hresult
        exact h.traced hmatch
  | any path name predicate ih =>
      unfold compile
      rw [ends_bind]
      refine (tracks_compileCollection hs).imp (fun result between h => ?_) fun _ => id
      obtain ⟨cursor, p, hop, t⟩ := result
      obtain ⟨hkeeps, start, es, htrail⟩ := h
      dsimp only at htrail ⊢
      rw [ends_bind]
      refine (later_openScope position.scope name t.name).imp (fun result opened h => ?_) fun _ => id
      obtain ⟨key, inner⟩ := result
      obtain ⟨hinner, hopened⟩ := h
      obtain rfl : inner = position.scope.enter key := hinner
      dsimp only
      rw [ends_bind]
      refine ih.imp (fun body later hbody => ?_) fun _ => id
      -- the predicate is compiled in a deeper scope: what is seen from outside stays
      have hlater := hopened.trans (hbody.later.mono (Nat.le_succ _))
      rw [ends_bind]
      refine (keeps_placeJoin hrules _).imp (fun pattern after hplaced => ?_) fun _ => id
      have hall := hlater.trans (hplaced.extends _)
      exact ⟨(hkeeps.extends _).trans hall, (hall.trail htrail).known trivial, rfl, rfl,
        fun _ _ h => nomatch h⟩

theorem ValueAt.boundBy {schema : Schema} {names : Naming} {start stop : Place} {T : EntityType}
    {forest : Forest}
    {compiled : CompiledFilter} {branches : List Branch} {es : List Edge} {b : PropertyBranch} {v : String}
    (h : ValueAt schema names position start T path forest compiled branches es stop b v) {body : Body}
    (hchain : body.Chain position.place.var start.var (es ++ [b.valueEdge v])) :
    BoundBy schema position.place start T path body compiled (es ++ [b.valueEdge v]) where
  chain := hchain
  triples := Pattern.mem_triples_of_chain (p := ⟨position.place.var, body⟩) hchain
  hops := by
    rw [List.map_append]
    exact h.hops
  last := ⟨b.valueEdge v, by simp, h.clause⟩
  optional := by simp [h.mayBeUnbound, PropertyBranch.valueEdge, or_and_right, exists_or]

/-- The pattern of a known forest has the chains of its values, and so has any pattern that has its chains. -/
theorem Traced.bound {schema : Schema} {names : Naming} {forest : Forest} {compiled : CompiledFilter}
    (h : Traced schema scope position names path forest compiled)
    (hknown : forest.Known names position) {body : Body}
    (hbody : ∀ {start es}, (forest.place Rule.builtin position names).body.Chain position.place.var start es →
      body.Chain position.place.var start es) :
    Bound schema scope position names path compiled body := by
  obtain ⟨start, type, rest, T, branches, es, stop, b, v, hstart, htype, hvalue⟩ := h
  exact ⟨start, type, rest, T, _, hstart, htype, hvalue.boundBy
    (hbody (hknown.chain hvalue.trail hvalue.isComplex hvalue.foreignKey hvalue.value hvalue.way))⟩

end Conditions

/-- What the compiler leaves of a filter can be placed with the names that it leaves, and the pattern binds
the variable of every path outside of an `any`, also where it is added to another pattern. -/
theorem compile_bound (hs : context.schema.Accepted) (hids : context.schema.OwnIds)
    (hrules : context.rules = Rule.builtin) (hmatch : scope.Matches session.names position.scope) (f : Filter)
    {compiled : CompiledFilter}
    (hrun : (f.compile context scope position).run.run session = (.ok compiled, after)) :
    ∃ body, compiled.forest.placeAll Rule.builtin position after.names = .ok (body, after.names) ∧
      (f.values context scope position session).map (·.1) = f.paths ∧
      (f.values context scope position session).map (·.2.clause) = f.operands compiled.clause ∧
      (∀ path, f = .property path → f.values context scope position session = [(path, compiled)]) ∧
      ∀ result ∈ f.values context scope position session,
        Bound context.schema scope position session.names result.1 result.2 body ∧
          ∀ base : Body, Bound context.schema scope position session.names result.1 result.2
            (base.merge body) := by
  have h : Placeable context f scope position session compiled after :=
    (placeable_compile hs hids hrules f).of_run hrun
  obtain ⟨hfailure, hnames⟩ := h.known.place
  have hstart : ∀ {path compiled body}, Bound context.schema scope position after.names path compiled body →
      Bound context.schema scope position session.names path compiled body := by
    rintro path compiled body ⟨start, type, rest, T, es, hstart, hbound⟩
    exact ⟨start, type, rest, T, es, (h.later.startOf _ _).symm.trans hstart, hbound⟩
  refine ⟨(compiled.forest.place Rule.builtin position after.names).body, ?_, h.paths, h.operands, ?_,
    fun result hresult => ?_⟩
  · simp only [Forest.placeAll, hfailure, hnames]
  · rintro path rfl
    rw [compile] at hrun
    simp only [values, hrun]
  · have htraced := h.traced hmatch result hresult
    exact ⟨hstart (htraced.bound h.known id), fun base => hstart (htraced.bound h.known (·.merge_right base))⟩

end Filter

namespace Sample

/-- Filters on things, with another thing that a lambda variable stands for. -/
def scope : FilterScope := ⟨"Thing", [("x", "Thing")]⟩

def position : Position := ⟨⟨0⟩, ⟨⟨0⟩, 0, []⟩⟩

def session : Session where
  names := { next := 2, chains := 1, namespaces := [((position.scope, "x"), ⟨⟨1⟩, "Thing"⟩)] }

theorem scope_matches : scope.Matches session.names position.scope := by
  intro name
  by_cases hname : name = "x"
  · subst hname
    rfl
  · have hother : ((position.scope, name) == (position.scope, "x")) = false := by simp [hname]
    have hundefined : session.names.defined? ⟨⟨0⟩, 0, []⟩ name = none := by
      rw [Naming.defined?, session, List.lookup_cons]
      simp only [position] at hother
      simp only [position, hother, List.lookup_nil]
    have hunresolved : session.names.resolve position.scope name = .error (.notBound name) := by
      simp only [Naming.resolve, position, Naming.resolveFrom, hundefined]
    simp [scope, hname, hunresolved, Except.toOption]

def compared : Filter :=
  .and (.eq (.property ["x", "WholeId"]) (.property ["Whole", "Label"]))
    (.any ["Parts"] "y" (.eq (.property ["y", "Id"]) (.property ["x", "Id"])))

end Sample

theorem Filter.compile_bound_sample : Sample.schema.Accepted ∧ Sample.schema.OwnIds ∧
    Sample.scope.Matches Sample.session.names Sample.position.scope ∧ ∃ compiled after body,
      (Sample.compared.compile { schema := Sample.schema, rules := Rule.builtin } Sample.scope
        Sample.position).run.run Sample.session = (.ok compiled, after) ∧
      compiled.forest.placeAll Rule.builtin Sample.position after.names = .ok (body, after.names) ∧
      ∀ path ∈ [["x", "WholeId"], ["Whole", "Label"]], ∃ value,
        Bound Sample.schema Sample.scope Sample.position Sample.session.names path value body := by
  have hok : ((Sample.compared.compile { schema := Sample.schema, rules := Rule.builtin } Sample.scope
      Sample.position).run.run Sample.session).1.isOk = true := by decide +kernel
  obtain ⟨compiled, after, hrun⟩ : ∃ compiled after, (Sample.compared.compile
      { schema := Sample.schema, rules := Rule.builtin } Sample.scope Sample.position).run.run
        Sample.session = (.ok compiled, after) := by
    generalize StateT.run _ Sample.session = ended at hok
    obtain ⟨_ | compiled, after⟩ := ended
    · simp [Except.isOk, Except.toBool] at hok
    · exact ⟨compiled, after, rfl⟩
  obtain ⟨body, hplaced, hpaths, -, -, hbound⟩ :=
    compile_bound Sample.accepted Sample.ownIds rfl Sample.scope_matches Sample.compared hrun
  refine ⟨Sample.accepted, Sample.ownIds, Sample.scope_matches, compiled, after, body, hrun, hplaced,
    fun path hpath => ?_⟩
  rw [show [["x", "WholeId"], ["Whole", "Label"]] = Sample.compared.paths from rfl, ← hpaths] at hpath
  obtain ⟨result, hresult, rfl⟩ := List.mem_map.mp hpath
  exact ⟨result.2, (hbound result hresult).1⟩

end EntityGraph
