import EntityGraph.Proofs.Filter.Run
import EntityGraph.Proofs.Placement.Resolves
import EntityGraph.Read.Error

/-!
# Well-formed filters

A path steps over single-valued navigation properties, from the filtered type or from the type of the
lambda variable that it starts with. A filter is well formed when its numbers are finite, its values
are paths to elementary properties, and every `any` is about a path to a collection, with a predicate
that is well formed with one more lambda variable, which may shadow another one.

The compiler accepts exactly the well-formed filters, and it blames the request for all others: lambda
variables in scope are always bound, the scopes that it opens are always new, and what it asks for can
always be placed.
-/
namespace EntityGraph

/-- The property at the end of a path over single-valued navigation properties. -/
def Schema.reach? (schema : Schema) : EntityType → List String → Option Property
  | _, [] => none
  | T, [name] => T.property? name
  | T, name :: next :: rest =>
    match T.property? name with
    | none => none
    | some p =>
      if p.isElementary || !p.isSingle then none
      else
        match schema.targetType p with
        | .error _ => none
        | .ok t => schema.reach? t (next :: rest)

namespace Filter

/-- The type that a path starts at, and the path from there: a lambda variable comes before a property
of the same name. -/
def origin (lambda : String → Option EntityType) (T : EntityType) : List String → EntityType × List String
  | [] => (T, [])
  | first :: rest =>
    match lambda first with
    | some t => (t, rest)
    | none => (T, first :: rest)

def target? (schema : Schema) (T : EntityType) (lambda : String → Option EntityType)
    (path : List String) : Option Property :=
  schema.reach? (origin lambda T path).1 (origin lambda T path).2

/-- The filter makes sense for entities of type `T`, with the types of the lambda variables. -/
def WellFormed (schema : Schema) (T : EntityType) : Filter → (String → Option EntityType) → Prop
  | string _, _ => True
  | number value, _ => value.isFinite = true
  | boolean _, _ => True
  | null, _ => True
  | and left right, lambda => left.WellFormed schema T lambda ∧ right.WellFormed schema T lambda
  | or left right, lambda => left.WellFormed schema T lambda ∧ right.WellFormed schema T lambda
  | eq left right, lambda => left.WellFormed schema T lambda ∧ right.WellFormed schema T lambda
  | parentheses inner, lambda => inner.WellFormed schema T lambda
  | property path, lambda => ∃ p, target? schema T lambda path = some p ∧ p.isElementary = true
  | any path name predicate, lambda => ∃ p t, target? schema T lambda path = some p ∧
      p.isSingle = false ∧ schema.targetType p = .ok t ∧
      predicate.WellFormed schema T (Function.update lambda name (some t))

end Filter

namespace Session

def keys (context : FilterContext) (session : Session) : Set ScopeKey :=
  {k | ∃ i < session.drawn, k = context.key i}

/-- A later session: what was named keeps its name, and no scope entered with the keys drawn so far is
affected. -/
structure Grows (context : FilterContext) (session after : Session) : Prop where
  drawn : session.drawn ≤ after.drawn
  related : ∀ {q name r}, session.names.related? q name = some r → after.names.related? q name = some r
  value : ∀ {q name v}, session.names.value? q name = some v → after.names.value? q name = some v
  resolve : ∀ {scope : Scope}, (∀ k ∈ scope.keys, k ∈ session.keys context) → ∀ name,
    after.names.resolve scope name = session.names.resolve scope name
  definitions : session.names.Scoped (session.keys context) → after.names.Scoped (after.keys context)

variable {context : FilterContext} {session after later : Session}

theorem Grows.keys (h : session.Grows context after) {k : ScopeKey} (hk : k ∈ session.keys context) :
    k ∈ after.keys context := by
  obtain ⟨i, hi, rfl⟩ := hk
  exact ⟨i, hi.trans_le h.drawn, rfl⟩

theorem key_notMem_keys (hkey : Function.Injective context.key) (session : Session) :
    context.key session.drawn ∉ session.keys context := by
  rintro ⟨i, hi, heq⟩
  exact hi.ne (hkey heq).symm

theorem Grows.refl (session : Session) : session.Grows context session :=
  ⟨le_refl _, id, id, fun _ _ => rfl, id⟩

theorem Grows.trans (h : session.Grows context after) (h' : after.Grows context later) :
    session.Grows context later where
  drawn := h.drawn.trans h'.drawn
  related hr := h'.related (h.related hr)
  value hv := h'.value (h.value hv)
  resolve hscope name := (h'.resolve (fun k hk => h.keys (hscope k hk)) name).trans (h.resolve hscope name)
  definitions hs := h'.definitions (h.definitions hs)

theorem Grows.of_keeps {names : Naming} (h : session.names.Keeps names) :
    session.Grows context { session with names } where
  drawn := le_refl _
  related := h.related
  value := h.value
  resolve _ name := h.resolve _ name
  definitions hs scope name found hfound := by
    have hsame : names.defined? scope name = session.names.defined? scope name := by
      rw [Naming.defined?, h.namespaces, Naming.defined?]
    exact hs scope name found (hsame.symm.trans hfound)

end Session

namespace Filter

def Blames (e : FilterError) : Prop :=
  (ReadError.filter e).category = .badRequest

/-- The run ends well exactly if `formed`, and what is asked for starts at the entity or at a lambda
variable; otherwise the request is to blame. -/
def Decides (context : FilterContext) (lambda : String → Option EntityType) (session : Session)
    (x : FilterM CompiledFilter) (formed : Prop) : Prop :=
  Ends x session (fun compiled after => session.Grows context after ∧
    compiled.forest.Made (Branch.IsTop lambda) ∧ formed) fun e => Blames e ∧ ¬ formed

/-- What holds while a filter on entities of type `T` is compiled. -/
structure Ready (context : FilterContext) (scope : FilterScope) (position : Position) (T : EntityType)
    (lambda : String → Option EntityType) (session : Session) : Prop where
  declared : T ∈ context.schema.types
  type : scope.entityType = T.name
  lambdas : ∀ name, scope.lambdas.lookup name = (lambda name).map (·.name)
  lambda_declared : ∀ name t, lambda name = some t → t ∈ context.schema.types
  bound : session.names.Binds position.scope lambda
  definitions : session.names.Scoped (session.keys context)
  known : ∀ k ∈ position.scope.keys, k ∈ session.keys context

/-- The branches of a cursor lead to where it stands, over properties from what is in scope. -/
structure Cursor.Leads (lambda : String → Option EntityType) (cursor : Cursor) : Prop where
  made : ∀ {last : Forest}, last.Made Branch.IsProperty →
    (Forest.ofPath cursor.branches last).Made (Branch.IsTop lambda)
  resolves : ∀ {names : Naming} {scope : Scope} {last : Forest}, names.Binds scope lambda →
    last.Resolves names scope → (Forest.ofPath cursor.branches last).Resolves names scope

section Steps

variable {context : FilterContext} {scope : FilterScope} {position : Position} {T : EntityType}
  {lambda : String → Option EntityType} {session after : Session}

theorem Ready.grows (h : Ready context scope position T lambda session)
    (hg : session.Grows context after) : Ready context scope position T lambda after where
  declared := h.declared
  type := h.type
  lambdas := h.lambdas
  lambda_declared := h.lambda_declared
  bound name t hlambda := by
    obtain ⟨place, hplace⟩ := h.bound name t hlambda
    exact ⟨place, (hg.resolve h.known name).trans hplace⟩
  definitions := hg.definitions h.definitions
  known k hk := hg.keys (h.known k hk)

theorem Cursor.Leads.step {cursor next : Cursor} (h : cursor.Leads lambda) {b : PropertyBranch}
    (hnext : next.branches = cursor.branches ++ [.property b]) : next.Leads lambda where
  made hlast := by
    rw [hnext, Forest.ofPath_append]
    exact h.made ⟨⟨b, rfl⟩, hlast, trivial⟩
  resolves hbinds hlast := by
    rw [hnext, Forest.ofPath_append]
    exact h.resolves hbinds ⟨hlast, trivial⟩

variable (hs : context.schema.Accepted) {path : List String}

include hs

theorem ends_origin (h : Ready context scope position T lambda session) :
    Ends (start context scope position path) session (fun result after =>
      after = session ∧ (result.1.owner, result.2) = origin lambda T path ∧
        result.1.owner ∈ context.schema.types ∧ result.1.Leads lambda) fun _ => False := by
  have hhere : Cursor.Leads lambda { branches := [], owner := T, place := position.place } :=
    ⟨fun hlast => hlast.mono fun _ => Or.inl, fun _ hlast => hlast⟩
  unfold start
  rw [ends_bind, h.type, hs.entityType h.declared, ends_liftSchema_ok]
  cases path with
  | nil => exact ⟨rfl, rfl, h.declared, hhere⟩
  | cons first rest =>
      simp only
      rw [h.lambdas first]
      cases hlambda : lambda first with
      | none => exact ⟨rfl, by simp [origin, hlambda], h.declared, hhere⟩
      | some t =>
          obtain ⟨place, hplace⟩ := h.bound first t hlambda
          have ht := h.lambda_declared first t hlambda
          simp only [Option.map_some, Option.isNone_some, Bool.false_eq_true, if_false, ends_bind, ends_get,
            hplace, hs.entityType ht, ends_liftSchema_ok, ends_pure]
          refine ⟨trivial, by simp [origin, hlambda], ht, ?_, ?_⟩
          · intro last hlast
            exact ⟨Or.inr ⟨first, t, rfl, hlambda⟩, hlast, trivial⟩
          · intro names scope last hbinds hlast
            obtain ⟨place, hplace⟩ := hbinds first t hlambda
            exact ⟨⟨_, hplace⟩, hlast, trivial⟩

theorem ends_hop {cursor : Cursor} (ho : cursor.owner ∈ context.schema.types)
    (hc : cursor.Leads lambda) {name : String} :
    Ends (navigate context path cursor name) session (fun next after =>
      session.Grows context after ∧ next.owner ∈ context.schema.types ∧ next.Leads lambda ∧
      ∃ p, cursor.owner.property? name = some p ∧ p.isElementary = false ∧ p.isSingle = true ∧
        context.schema.targetType p = .ok next.owner)
      fun e => Blames e ∧ ∀ p, cursor.owner.property? name = some p →
        (p.isElementary || !p.isSingle) = true := by
  unfold navigate
  simp only [ends_bind, ends_liftSchema]
  cases hp : cursor.owner.property? name with
  | none =>
      simp only [EntityType.property, hp]
      exact ⟨rfl, by simp⟩
  | some p =>
      obtain ⟨hmem, rfl⟩ := EntityType.mem_of_property? hp
      obtain ⟨b, hb, -⟩ := hs.ofProperty ho hmem
      simp only [EntityType.property, hp]
      cases he : p.isElementary with
      | true => exact ⟨rfl, fun p' hp' => by simp [← Option.some.inj hp', he]⟩
      | false =>
          obtain ⟨t, ht, htarget⟩ := hs.targetType ho hmem he
          cases hsingle : p.isSingle with
          | false => exact ⟨rfl, fun p' hp' => by simp [← Option.some.inj hp', hsingle]⟩
          | true =>
              simp only [Bool.false_eq_true, if_false, Bool.not_true, ends_bind, ends_liftSchema, hb, htarget,
                ends_naming, ends_pure]
              exact ⟨.of_keeps (Naming.keeps_relatedPlace _ _ _).1, ht, hc.step rfl, p, rfl, he,
                hsingle, htarget⟩

theorem ends_hops {cursor : Cursor} (ho : cursor.owner ∈ context.schema.types)
    (hc : cursor.Leads lambda) (init : List String) (last : String) :
    Ends (navigateAll context path cursor init) session (fun next after =>
      session.Grows context after ∧ next.owner ∈ context.schema.types ∧ next.Leads lambda ∧
      context.schema.reach? cursor.owner (init ++ [last]) = next.owner.property? last)
      fun e => Blames e ∧ context.schema.reach? cursor.owner (init ++ [last]) = none := by
  induction init generalizing cursor session with
  | nil => exact ⟨.refl session, ho, hc, rfl⟩
  | cons name init ih =>
      unfold navigateAll
      rw [ends_bind]
      obtain ⟨next, rest, hrest⟩ := List.exists_cons_of_ne_nil (List.concat_ne_nil last init)
      refine (ends_hop hs ho hc).imp (fun middle between h => ?_) fun e h => ⟨h.1, ?_⟩
      · obtain ⟨hgrows, hmiddle, hleads, p, hp, he, hsingle, htarget⟩ := h
        have hreach : context.schema.reach? cursor.owner (name :: init ++ [last]) =
            context.schema.reach? middle.owner (init ++ [last]) := by
          rw [List.cons_append, hrest, Schema.reach?, hp]
          simp [he, hsingle, htarget]
        rw [hreach]
        exact (ih hmiddle hleads).imp (fun final after h => ⟨hgrows.trans h.1, h.2⟩) fun e h => h
      · rw [List.cons_append, hrest, Schema.reach?]
        cases hp : cursor.owner.property? name with
        | none => rfl
        | some p => simp [h.2 p hp]

/-- Following a path but for its last name. Only the start of the path depends on the lambda variables. -/
theorem ends_arrival (h : Ends (start context scope position path) session (fun result after =>
      after = session ∧ (result.1.owner, result.2) = origin lambda T path ∧
        result.1.owner ∈ context.schema.types ∧ result.1.Leads lambda) fun _ => False) (missing : PathFault) :
    Ends (follow context scope position path missing) session (fun reached after =>
      session.Grows context after ∧ reached.1.owner ∈ context.schema.types ∧ reached.1.Leads lambda ∧
      target? context.schema T lambda path = reached.1.owner.property? reached.2)
      fun e => Blames e ∧ target? context.schema T lambda path = none := by
  refine ends_follow (h.imp (fun result between hstart => ?_) fun _ => False.elim)
  obtain ⟨cursor, rest⟩ := result
  obtain ⟨rfl, horigin, ho, hleads⟩ := hstart
  have htarget : target? context.schema T lambda path = context.schema.reach? cursor.owner rest := by
    rw [target?, ← horigin]
  rw [htarget]
  constructor
  · rintro rfl
    exact ⟨rfl, by simp [Schema.reach?]⟩
  · rintro init last rfl
    exact ends_hops hs ho hleads init last

theorem ends_lastValue {cursor : Cursor} (ho : cursor.owner ∈ context.schema.types) (hc : cursor.Leads lambda)
    {p : Property} (hp : p ∈ cursor.owner.properties) :
    Ends (readValue context path cursor p) session (fun compiled after => session.Grows context after ∧
      compiled.forest.Made (Branch.IsTop lambda) ∧ p.isElementary = true)
      fun e => Blames e ∧ p.isElementary = false := by
  unfold readValue
  cases p.isElementary with
  | false => exact ⟨rfl, rfl⟩
  | true =>
      obtain ⟨b, hb, -⟩ := hs.ofProperty ho hp
      simp only [Bool.not_true, Bool.false_eq_true, if_false, ends_bind, ends_liftSchema, hb,
        ends_naming, ends_pure]
      have hkeeps := (Naming.keeps_value session.names cursor.place p.name).1
      have hnext : Cursor.Leads lambda { cursor with branches := cursor.branches ++ [.property b] } :=
        hc.step rfl
      exact ⟨.of_keeps hkeeps, hnext.made trivial, trivial⟩

theorem ends_value_of (h : Ends (start context scope position path) session (fun result after =>
      after = session ∧ (result.1.owner, result.2) = origin lambda T path ∧
        result.1.owner ∈ context.schema.types ∧ result.1.Leads lambda) fun _ => False) :
    Decides context lambda session (compileProperty context scope position path)
      ((property path).WellFormed context.schema T lambda) := by
  unfold Decides compileProperty
  rw [ends_bind]
  refine (ends_arrival hs h .noProperty).imp (fun reached after h => ?_) fun e hbad =>
    ⟨hbad.1, by simp [WellFormed, hbad.2]⟩
  obtain ⟨cursor, last⟩ := reached
  obtain ⟨hgrows, ho, hleads, htarget⟩ := h
  simp only at ho hleads htarget
  simp only [WellFormed, htarget, ends_bind, ends_liftSchema, EntityType.property]
  cases hp : cursor.owner.property? last with
  | none => exact ⟨rfl, by simp⟩
  | some p =>
      obtain ⟨hmem, -⟩ := EntityType.mem_of_property? hp
      obtain ⟨-, hkey⟩ | ⟨related, hrel, t, ht, i, hi, helem, -, hrelem, hsingle, htarget, hid, hkey⟩ :=
        hs.foreignKey? ho hmem
      · simp only [hkey]
        exact (ends_lastValue hs ho hleads hmem).imp
          (fun c later hvalue => ⟨hgrows.trans hvalue.1, hvalue.2.1, p, rfl, hvalue.2.2⟩)
          fun e hbad => ⟨hbad.1, by simp [hbad.2]⟩
      · have hnavigation := hs.property? ho hrel
        simp only [hkey, ends_bind]
        refine (ends_hop hs ho hleads).imp (fun next between hnext => ?_) fun e hbad => ?_
        · obtain ⟨hbetween, hto, hnleads, p', hp', -, -, htarget'⟩ := hnext
          obtain rfl := Option.some.inj (hnavigation.symm.trans hp')
          obtain rfl := Except.ok.inj (htarget.symm.trans htarget')
          obtain ⟨i', -, -, hid', hielem, -⟩ := hs.id hto
          obtain rfl := Option.some.inj (hid.symm.trans hid')
          exact (ends_lastValue hs hto hnleads hi).imp
            (fun c later hvalue => ⟨hgrows.trans (hbetween.trans hvalue.1), hvalue.2.1, p, rfl, helem⟩)
            fun e hbad => by simp [hielem] at hbad
        · have hfailed := hbad.2 related hnavigation
          simp [hrelem, hsingle] at hfailed

theorem ends_value (h : Ready context scope position T lambda session) :
    Decides context lambda session (compileProperty context scope position path)
      ((property path).WellFormed context.schema T lambda) :=
  ends_value_of hs (ends_origin hs h)

theorem ends_collection (h : Ready context scope position T lambda session) :
    Ends (compileCollection context scope position path) session (fun result after =>
      session.Grows context after ∧ result.1.Leads lambda ∧ result.2.2.2 ∈ context.schema.types ∧
      target? context.schema T lambda path = some result.2.1 ∧ result.2.1.isSingle = false ∧
      context.schema.targetType result.2.1 = .ok result.2.2.2)
      fun e => Blames e ∧ ∀ p, target? context.schema T lambda path = some p → p.isSingle = true := by
  unfold compileCollection
  rw [ends_bind]
  refine (ends_arrival hs (ends_origin hs h) .noCollection).imp (fun reached after h => ?_) fun e hbad =>
    ⟨hbad.1, by simp [hbad.2]⟩
  obtain ⟨cursor, last⟩ := reached
  obtain ⟨hgrows, ho, hleads, htarget⟩ := h
  simp only [htarget, ends_bind, ends_liftSchema, EntityType.property]
  cases hp : cursor.owner.property? last with
  | none => exact ⟨rfl, by simp⟩
  | some p =>
      obtain ⟨hmem, -⟩ := EntityType.mem_of_property? hp
      simp only
      cases hsingle : p.isSingle with
      | true => exact ⟨rfl, by simp [hsingle]⟩
      | false =>
          have he : p.isElementary = false := (Bool.or_eq_false_iff.mp hsingle).1
          obtain ⟨t, ht, htarget⟩ := hs.targetType ho hmem he
          obtain ⟨hop, hhop⟩ := hs.hop ho hmem
          simp only [Bool.false_eq_true, if_false, ends_bind, ends_liftSchema, hhop, htarget, ends_pure]
          exact ⟨hgrows, hleads, ht, trivial, hsingle, trivial⟩

omit hs in
theorem ends_scope (hkey : Function.Injective context.key)
    (h : Ready context scope position T lambda session) {t : EntityType} (ht : t ∈ context.schema.types)
    (name : String) :
    Ends (openScope context position.scope name t.name) session (fun result after =>
      session.Grows context after ∧ result.2 = position.scope.enter result.1 ∧
      Ready context (scope.withLambda name t.name) { position with scope := result.2 } T
        (Function.update lambda name (some t)) after) fun _ => False := by
  have hnew := session.key_notMem_keys hkey
  have hkeys : ∀ names, ({ names, drawn := session.drawn + 1 } : Session).keys context =
      insert (context.key session.drawn) (session.keys context) := by
    intro names
    ext k
    simp only [Session.keys, Set.mem_ofPred_eq, Set.mem_insert_iff, Nat.lt_succ_iff_lt_or_eq]
    constructor
    · rintro ⟨i, hi | rfl, rfl⟩
      · exact Or.inr ⟨i, hi, rfl⟩
      · exact Or.inl rfl
    · rintro (rfl | ⟨i, hi, rfl⟩)
      · exact ⟨_, Or.inr rfl, rfl⟩
      · exact ⟨i, Or.inl hi, rfl⟩
  rw [ends_openScope_iff, h.definitions.define hnew]
  have hgrows : session.Grows context ⟨session.names.bound (position.scope.enter (context.key session.drawn))
      name t.name, session.drawn + 1⟩ := {
    drawn := Nat.le_succ _
    related := fun hr => hr
    value := fun hv => hv
    resolve := fun hscope name => Naming.resolve_bound_of_known hnew hscope name
    definitions := fun hscoped => by
      rw [hkeys]
      exact hscoped.bound h.known }
  have hafter := h.grows hgrows
  refine ⟨hgrows, rfl, ⟨h.declared, h.type, fun other => ?_, fun other t' hother => ?_,
    fun other t' hother => ?_, hafter.definitions, fun k hk => ?_⟩⟩
  · by_cases hname : other = name
    · subst hname
      simp [FilterScope.withLambda]
    · have hbeq : (other == name) = false := by simpa using hname
      rw [Function.update_of_ne hname, FilterScope.withLambda, List.lookup_cons, hbeq]
      exact h.lambdas other
  · by_cases hname : other = name
    · obtain rfl : t = t' := by simpa [hname] using hother
      exact ht
    · rw [Function.update_of_ne hname] at hother
      exact h.lambda_declared other t' hother
  · by_cases hname : other = name
    · subst hname
      obtain rfl : t = t' := by simpa using hother
      exact ⟨_, h.definitions.resolve_bound hnew _ _ _⟩
    · rw [Function.update_of_ne hname] at hother
      obtain ⟨place, hplace⟩ := hafter.bound other t' hother
      exact ⟨place, (h.definitions.resolve_bound_other hnew _ _ hname).trans hplace⟩
  · rw [hkeys]
    obtain rfl | hk := List.mem_cons.mp hk
    · exact Or.inl rfl
    · exact Or.inr (h.known k hk)

omit hs in
/-- Two operands, the second one in the session that the first one leaves. -/
theorem Decides.both {x y : FilterM CompiledFilter} {left right : Prop}
    {result : CompiledFilter → CompiledFilter → CompiledFilter}
    (hresult : ∀ l r, (result l r).forest = l.forest.merge r.forest)
    (hx : Decides context lambda session x left)
    (hy : ∀ after, session.Grows context after → Decides context lambda after y right) :
    Decides context lambda session (do return result (← x) (← y)) (left ∧ right) := by
  unfold Decides
  rw [ends_bind]
  refine hx.imp (fun l between hl => ?_) fun e hbad => ⟨hbad.1, fun hboth => hbad.2 hboth.1⟩
  rw [ends_bind]
  refine (hy between hl.1).imp (fun r after hr => ?_) fun e hbad => ⟨hbad.1, fun hboth => hbad.2 hboth.2⟩
  refine ⟨hl.1.trans hr.1, ?_, hl.2.2, hr.2.2⟩
  rw [hresult]
  exact hl.2.1.merge hr.2.1

/-- The compiler accepts well-formed filters, and blames the request for others. -/
theorem decides_compile (hrules : context.rules = Rule.builtin) (hkey : Function.Injective context.key)
    (f : Filter) (h : Ready context scope position T lambda session) :
    Decides context lambda session (f.compile context scope position)
      (f.WellFormed context.schema T lambda) := by
  induction f generalizing session scope position lambda with
  | string value => exact ⟨.refl _, trivial, trivial⟩
  | boolean value => exact ⟨.refl _, trivial, trivial⟩
  | null => exact ⟨.of_keeps ⟨id, id, rfl⟩, trivial, trivial⟩
  | number value =>
      unfold Decides compile
      cases value with
      | nan => exact ⟨rfl, nofun⟩
      | infinite negative => exact ⟨rfl, nofun⟩
      | finite negative significand shift =>
          have hok : ∃ text, numberText (.finite negative significand shift) = .ok text := by
            unfold numberText
            simp only
            split
            · split
              · exact ⟨_, rfl⟩
              · exact ⟨_, rfl⟩
            · exact ⟨_, rfl⟩
          obtain ⟨text, htext⟩ := hok
          rw [htext]
          exact ⟨.refl _, trivial, rfl⟩
  | and left right ihl ihr => exact (ihl h).both (fun _ _ => rfl) fun _ hgrows => ihr (h.grows hgrows)
  | or left right ihl ihr => exact (ihl h).both (fun _ _ => rfl) fun _ hgrows => ihr (h.grows hgrows)
  | eq left right ihl ihr => exact (ihl h).both (fun _ _ => rfl) fun _ hgrows => ihr (h.grows hgrows)
  | parentheses inner ih => exact ih h
  | property path => exact ends_value hs h
  | any path name predicate ih =>
      unfold Decides compile
      rw [ends_bind]
      refine (ends_collection hs h).imp (fun ⟨cursor, p, hop, t⟩ between hcollection => ?_) fun e hbad => ?_
      · obtain ⟨hgrows, hleads, ht, htarget, hmany, htype⟩ := hcollection
        have hready := h.grows hgrows
        simp only at hleads ht htarget hmany htype ⊢
        rw [ends_bind]
        refine (ends_scope hkey hready ht name).imp (fun ⟨key, inner⟩ opened hscope => ?_) fun _ => False.elim
        simp only at hscope ⊢
        obtain ⟨hopened, rfl, hinner⟩ := hscope
        rw [ends_bind]
        refine (ih hinner).imp (fun body later hbody => ?_) fun e hbad => ⟨hbad.1, ?_⟩
        · obtain ⟨hlater, hmade, hformed⟩ := hbody
          have houter := hready.grows (hopened.trans hlater)
          have hjoin := hmade.resolves_join (a := { name := p.name, hop, lambda := name, key })
            (fun hlast => hleads.resolves houter.bound hlast) houter.bound (hinner.grows hlater).bound
          rw [ends_bind, ends_placeJoin_iff hrules, hjoin.place]
          exact ⟨(hgrows.trans (hopened.trans hlater)).trans (.of_keeps Forest.place_keeps),
            hleads.made trivial, p, t, htarget, hmany, htype, hformed⟩
        · rintro ⟨p', t', htarget', -, htype', hformed⟩
          obtain rfl := Option.some.inj (htarget.symm.trans htarget')
          obtain rfl := Except.ok.inj (htype.symm.trans htype')
          exact hbad.2 hformed
      · refine ⟨hbad.1, ?_⟩
        rintro ⟨p, t, htarget, hmany, -⟩
        simp [hbad.2 p htarget] at hmany

end Steps
end Filter
end EntityGraph
