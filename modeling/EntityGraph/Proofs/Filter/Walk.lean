import EntityGraph.Proofs.Filter.Run
import EntityGraph.Proofs.Placement.Asks

/-!
# Following a path

The compiler follows a path from entity to entity and names each of them. A walk is what it has
followed: the entities with their types, the variables of the entities on the way, and whether an
optional property was passed. What a path ends with is a value, or, for a foreign key, the identifier
of the related entity. Walks are not affected by names that are made up later.

The branches that a cursor holds lead from the position of the filter to where the cursor stands.
-/
namespace EntityGraph

namespace Survey

variable {schema : Schema} {w w' : Survey}

/-- From one entity to another, with the variables of the entities that are reached on the way. -/
inductive Walk (schema : Schema) (w : Survey) :
    Place → EntityType → List String → Place → EntityType → List String → Bool → Prop
  | nil {q : Place} {T : EntityType} : Walk schema w q T [] q T [] false
  | cons {q r o : Place} {T t O : EntityType} {p : Property} {h : Hop} {name : String}
      {names vs : List String} {optional : Bool} (hp : T.property? name = some p)
      (he : p.isElementary = false) (hsingle : p.isSingle = true) (ht : schema.targetType p = .ok t)
      (hh : schema.hop p = .ok h) (hr : w.names.related? q name = some r)
      (hrest : Walk schema w r t names o O vs optional) :
      Walk schema w q T (name :: names) o O (r.var :: vs) (!p.isMandatory || optional)

/-- The variable of a value, with the variables that are passed to reach it. -/
inductive Last (schema : Schema) (w : Survey) (q : Place) (T : EntityType) (name : String) :
    String → List String → Bool → Prop
  | value {p : Property} {v : String} (hp : T.property? name = some p) (he : p.isElementary = true)
      (hf : p.foreignKeyOf = none) (hv : w.names.value? q name = some v) :
      Last schema w q T name v [v] (!p.isMandatory)
  | foreignKey {p related i : Property} {t : EntityType} {h : Hop} {r : Place} {v : String}
      (hp : T.property? name = some p) (he : p.isElementary = true)
      (hf : p.foreignKeyOf = some related.name) (hrel : T.property? related.name = some related)
      (hrelem : related.isElementary = false) (hsingle : related.isSingle = true)
      (ht : schema.targetType related = .ok t) (hh : schema.hop related = .ok h)
      (hi : t.property? idName = some i) (hr : w.names.related? q related.name = some r)
      (hv : w.names.value? r idName = some v) :
      Last schema w q T name v [r.var, v] (!related.isMandatory || !i.isMandatory)

variable {q o : Place} {T O : EntityType} {names vs : List String} {name v : String} {optional : Bool}

theorem Walk.mono (h : Walk schema w q T names o O vs optional) (hle : w ≤ w') :
    Walk schema w' q T names o O vs optional := by
  induction h with
  | nil => exact .nil
  | cons hp he hsingle ht hh hr _ ih => exact .cons hp he hsingle ht hh (hle.related hr) ih

theorem Last.mono (h : Last schema w q T name v vs optional) (hle : w ≤ w') :
    Last schema w' q T name v vs optional := by
  cases h with
  | value hp he hf hv => exact .value hp he hf (hle.value hv)
  | foreignKey hp he hf hrel hrelem hsingle ht hh hi hr hv =>
      exact .foreignKey hp he hf hrel hrelem hsingle ht hh hi (hle.related hr) (hle.value hv)

end Survey

namespace Filter

/-- Where a path starts, and what is left of it: at a lambda variable if it names one. -/
def startOf (lambda : String → Option (Place × EntityType)) (q : Place) (T : EntityType) :
    List String → Place × EntityType × List String
  | [] => (q, T, [])
  | first :: rest =>
    match lambda first with
    | some (r, t) => (r, t, rest)
    | none => (q, T, first :: rest)

/-- The lambda variables among some names. -/
def among (names : List String) (lambda : String → Option (Place × EntityType)) :
    String → Option (Place × EntityType) :=
  fun name => if name ∈ names then lambda name else none

theorem among_eq_some {names : List String} {lambda : String → Option (Place × EntityType)} {name : String}
    {found : Place × EntityType} :
    among names lambda name = some found ↔ name ∈ names ∧ lambda name = some found := by
  unfold among
  split
  · next h => simp [h]
  · next h => simp [h]

theorem among_mono {names used : List String} {lambda : String → Option (Place × EntityType)}
    (hused : ∀ name ∈ names, name ∈ used) {name : String} {found : Place × EntityType}
    (h : among names lambda name = some found) : among used lambda name = some found :=
  among_eq_some.mpr ((among_eq_some.mp h).imp (hused name) id)

theorem update_among {names used : List String} {lambda : String → Option (Place × EntityType)}
    {x name : String} {found : Place × EntityType} {inner : Option (Place × EntityType)}
    (hused : name ∈ names → name ≠ x → name ∈ used)
    (h : among names (Function.update lambda x inner) name = some found) :
    Function.update (among used lambda) x inner name = some found := by
  obtain ⟨hmem, h⟩ := among_eq_some.mp h
  by_cases hname : name = x
  · subst hname
    simpa using h
  · rw [Function.update_of_ne hname] at h ⊢
    exact among_eq_some.mpr ⟨hused hmem hname, h⟩

/-- What holds while a filter on entities of type `T` is compiled. -/
structure Compiling (context : FilterContext) (scope : FilterScope) (position : Position)
    (T : EntityType) (lambda : String → Option (Place × EntityType)) (w : Survey) (session : Session) :
    Prop where
  sound : w.Sound context.schema
  names : w.names = session.names
  keys : ∀ k ∈ w.keys, ∃ i < session.drawn, k = context.key i
  kind : w.chart.kind position.place.var = some T
  type : scope.entityType = T.name
  lambdas : ∀ name, scope.lambdas.lookup name = (lambda name).map fun found => found.2.name
  bound : w.Binds position.scope lambda
  unlinked : ∀ name q t, lambda name = some (q, t) → w.chart.link q.var = none
  known : ∀ k ∈ position.scope.keys, k ∈ w.keys

/-- The branches of a cursor lead to where it stands. -/
structure Cursor.Stands (schema : Schema) (position : Position) (T : EntityType)
    (lambda : String → Option (Place × EntityType)) (w : Survey) (cursor : Cursor) : Prop where
  kind : w.chart.kind cursor.place.var = some cursor.owner
  asks : ∀ {last : Forest}, last.Follows schema cursor.owner →
    (Forest.ofPath cursor.branches last).Asks schema lambda T
  suits : ∀ {L w' last}, position.place.var = L.top →
    (∀ name r t, lambda name = some (r, t) → L.lambda name = some (r, t)) → w ≤ w' →
      (∀ w'', w' ≤ w'' → last.Suits schema L w'' ⟨cursor.place, position.scope⟩ cursor.owner) →
        (Forest.ofPath cursor.branches last).Suits schema L w' position T
  mentions : ∀ {w' v} {last : Forest}, w ≤ w' →
    last.Mentions w'.names ⟨cursor.place, position.scope⟩ v →
      (Forest.ofPath cursor.branches last).Mentions w'.names position v
  single : ∀ {last : Forest}, last.Single → (Forest.ofPath cursor.branches last).Single

def Cursor.Passes (position : Position) (w : Survey) (cursor : Cursor) (v : String) : Prop :=
  ∀ w' last, w ≤ w' → (Forest.ofPath cursor.branches last).Mentions w'.names position v

theorem Cursor.Passes.append {position : Position} {w w' : Survey} {cursor next : Cursor} {v : String}
    (h : cursor.Passes position w v) (hle : w ≤ w') {more : List Branch}
    (hnext : next.branches = cursor.branches ++ more) : next.Passes position w' v := by
  intro w'' last hle'
  rw [hnext, Forest.ofPath_append]
  exact h w'' _ (hle.trans hle')

/-- A cursor that has followed a path but for its last name. -/
structure Cursor.Follows (context : FilterContext) (position : Position) (T : EntityType)
    (lambda : String → Option (Place × EntityType)) (path : List String) (w : Survey)
    (session : Session) (q : Place) (t : EntityType) (init : List String) (last : String)
    (vs : List String) (w' : Survey) (cursor : Cursor) (after : Session) : Prop where
  becomes : w.Becomes context.schema after.names w'
  drawn : after.drawn = session.drawn
  start : startOf lambda position.place T path = (q, t, init ++ [last])
  walk : w'.Walk context.schema q t init cursor.place cursor.owner vs cursor.isOptional
  stands : cursor.Stands context.schema position T (among (path.take 1) lambda) w'
  passes : ∀ v ∈ vs, cursor.Passes position w' v

section Steps

variable {context : FilterContext} {scope : FilterScope} {position : Position} {T : EntityType}
  {lambda : String → Option (Place × EntityType)} {w w' : Survey} {session after : Session}

theorem Compiling.becomes (h : Compiling context scope position T lambda w session)
    (hw : w.Becomes context.schema after.names w') (hdrawn : after.drawn = session.drawn) :
    Compiling context scope position T lambda w' after where
  sound := hw.sound
  names := hw.names_eq
  keys k hk := by
    rw [hdrawn]
    exact h.keys k (hw.keys ▸ hk)
  kind := h.sound.kind_le hw.le h.kind
  type := h.type
  lambdas := h.lambdas
  bound name q t hlambda w'' hle := h.bound name q t hlambda w'' (hw.le.trans hle)
  unlinked name q t hlambda := by
    have hkind := (h.bound name q t hlambda w (le_refl w)).2
    rw [Place.var, hw.le.link q.number (h.sound.number_lt hkind)]
    exact h.unlinked name q t hlambda
  known k hk := by
    rw [hw.keys]
    exact h.known k hk

theorem Compiling.declared (h : Compiling context scope position T lambda w session) :
    T ∈ context.schema.types := h.sound.declared h.kind

theorem Compiling.lambda_declared (h : Compiling context scope position T lambda w session)
    {name : String} {q : Place} {t : EntityType} (hlambda : lambda name = some (q, t)) :
    t ∈ context.schema.types :=
  h.sound.declared (h.bound name q t hlambda w (le_refl w)).2

theorem Cursor.Stands.step {schema : Schema} {cursor : Cursor} (hs : schema.Accepted)
    (hc : cursor.Stands schema position T lambda w) (hw : w.Sound schema) {p : Property}
    (hp : p ∈ cursor.owner.properties) (he : p.isElementary = false) (hsingle : p.isSingle = true)
    {b : PropertyBranch} (hreads : b.Reads schema cursor.owner p) {t : EntityType}
    (ht : schema.targetType p = .ok t) {names : Naming} (hw' : w.Becomes schema names w') {r : Place}
    (hr : w'.names.related? cursor.place p.name = some r) (isOptional : Bool) :
    Cursor.Stands schema position T lambda w'
      ⟨cursor.branches ++ [.property b], t, r, isOptional⟩ := by
  have hcomplex : b.isComplex = true := by rw [hreads.isComplex, he]; rfl
  obtain ⟨-, t', h, ht', -, hkind, -⟩ :=
    hw'.sound.related_of hs (hw.kind_le hw'.le hc.kind) hp hr
  obtain rfl : t = t' := Except.ok.inj (ht.symm.trans ht')
  refine ⟨hkind, fun {last} hlast => ?_, fun {L w₁ last} htop hL hle hlast => ?_,
    fun {w₁ v last} hle hlast => ?_, fun {last} hlast => ?_⟩
  · rw [Forest.ofPath_append]
    refine hc.asks ⟨⟨p, hp, hreads, fun h => by simp [he] at h, fun _ => ⟨hsingle, fun t' ht' => ?_⟩⟩,
      trivial⟩
    obtain rfl : t = t' := Except.ok.inj (ht.symm.trans ht')
    exact hlast
  · rw [Forest.ofPath_append]
    refine hc.suits htop hL (hw'.le.trans hle) fun w₂ hle₂ => ?_
    refine ⟨⟨p, hp, hreads, fun h => by simp [he] at h, fun _ t' ht' w₃ hle₃ r' hr' => ?_⟩, trivial⟩
    obtain rfl : t = t' := Except.ok.inj (ht.symm.trans ht')
    have hlater := (hle.trans (hle₂.trans hle₃)).related hr
    obtain rfl : r = r' := Option.some.inj (hlater.symm.trans hr')
    exact hlast w₃ (hle₂.trans hle₃)
  · rw [Forest.ofPath_append]
    exact hc.mentions (hw'.le.trans hle)
      (.belowRelated hcomplex (by rw [hreads.name]; exact hle.related hr) hlast)
  · rw [Forest.ofPath_append]
    exact hc.single ⟨fun _ => hreads.isSingle.trans hsingle, hlast, trivial⟩

variable (hs : context.schema.Accepted) {path : List String} {bad : FilterError → Prop}

include hs

theorem ends_start (hc : Compiling context scope position T lambda w session) :
    Ends (start context scope position path) session (fun result after =>
      after = session ∧ result.1.Stands context.schema position T (among (path.take 1) lambda) w ∧
        (result.1.place, result.1.owner, result.2) = startOf lambda position.place T path ∧
        result.1.isOptional = false) bad := by
  have hT := hs.entityType hc.declared
  have hhere : Cursor.Stands context.schema position T (among (path.take 1) lambda) w
      { branches := [], owner := T, place := position.place } := {
    kind := hc.kind
    asks := fun h => h.asks
    suits := fun _ _ _ h => h _ (le_refl _)
    mentions := fun _ h => h
    single := fun h => h }
  unfold start
  rw [ends_bind, hc.type, hT, ends_liftSchema_ok]
  cases path with
  | nil => exact ⟨rfl, hhere, rfl, rfl⟩
  | cons first rest =>
      simp only
      rw [hc.lambdas first]
      cases hlambda : lambda first with
      | none => exact ⟨rfl, hhere, by simp [startOf, hlambda], rfl⟩
      | some found =>
          obtain ⟨r, t⟩ := found
          obtain ⟨hresolve, hkind⟩ := hc.bound first r t hlambda w (le_refl w)
          have ht := hc.lambda_declared hlambda
          rw [hc.names] at hresolve
          simp only [Option.map_some, Option.isNone_some, Bool.false_eq_true, if_false, ends_bind,
            ends_get, hresolve, hs.entityType ht, ends_liftSchema_ok, ends_pure]
          have hamong : among ((first :: rest).take 1) lambda first = some (r, t) :=
            among_eq_some.mpr ⟨by simp, hlambda⟩
          refine ⟨trivial, ⟨hkind, ?_, ?_, ?_, ?_⟩, by simp [startOf, hlambda], trivial⟩
          · intro last hlast
            exact ⟨⟨r, t, hamong, ht, rfl, hlast⟩, trivial⟩
          · intro L w' last htop hL hle hlast
            refine ⟨⟨⟨r, t.name⟩, t, rfl, ht, Or.inr ⟨htop, hL first r t hamong⟩, fun w'' hle' => ?_⟩,
              trivial⟩
            obtain ⟨hresolve', hkind'⟩ := hc.bound first r t hlambda w'' (hle.trans hle')
            exact ⟨hresolve', hkind', hlast w'' hle'⟩
          · intro w' v last hle hlast
            exact .belowLambda (hc.bound first r t hlambda w' hle).1 hlast
          · intro last hlast
            exact ⟨hlast, trivial⟩

theorem ends_navigate {cursor : Cursor} (hc : cursor.Stands context.schema position T lambda w)
    (hw : w.Sound context.schema) (hnames : w.names = session.names) {name : String} :
    Ends (navigate context path cursor name) session (fun next after => ∃ w' p h,
      w.Becomes context.schema after.names w' ∧ after.drawn = session.drawn ∧
      next.Stands context.schema position T lambda w' ∧
      cursor.owner.property? name = some p ∧ p.isElementary = false ∧ p.isSingle = true ∧
      context.schema.targetType p = .ok next.owner ∧ context.schema.hop p = .ok h ∧
      w'.names.related? cursor.place name = some next.place ∧
      next.isOptional = (cursor.isOptional || !p.isMandatory) ∧
      (∃ branch, next.branches = cursor.branches ++ [branch]) ∧
      next.Passes position w' next.place.var)
      fun _ => True := by
  unfold navigate
  simp only [ends_bind, ends_liftSchema]
  split
  · next p hproperty =>
      cases he : p.isElementary with
      | true => trivial
      | false =>
          cases hsingle : p.isSingle with
          | false => trivial
          | true =>
              have hp := EntityType.property_eq_ok.mp hproperty
              obtain ⟨hmem, rfl⟩ := EntityType.mem_of_property? hp
              have hO := hw.declared hc.kind
              obtain ⟨b, hb, hreads⟩ := hs.ofProperty hO hmem
              obtain ⟨t, -, ht⟩ := hs.targetType hO hmem he
              obtain ⟨h, hh⟩ := hs.hop hO hmem
              obtain ⟨w', hw', hr⟩ := hw.relatedPlace hs hc.kind hmem he
              have hcomplex : b.isComplex = true := by rw [hreads.isComplex, he]; rfl
              simp only [Bool.false_eq_true, if_false, Bool.not_true, ends_bind, ends_liftSchema, hb, ht,
                ends_naming, ends_pure]
              rw [← hnames]
              refine ⟨w', p, h, hw', trivial, hc.step hs hw hmem he hsingle hreads ht hw' hr _,
                hp, he, hsingle, ht, hh, hr, rfl, ⟨_, rfl⟩, fun w'' last hle => ?_⟩
              rw [Forest.ofPath_append]
              exact hc.mentions (hw'.le.trans hle)
                (.related hcomplex (by rw [hreads.name]; exact hle.related hr))
  · trivial

theorem ends_navigateAll {cursor : Cursor} {names : List String}
    (hc : cursor.Stands context.schema position T lambda w) (hw : w.Sound context.schema)
    (hnames : w.names = session.names) :
    Ends (navigateAll context path cursor names) session (fun last after => ∃ w' vs optional,
      w.Becomes context.schema after.names w' ∧ after.drawn = session.drawn ∧
      last.Stands context.schema position T lambda w' ∧
      w'.Walk context.schema cursor.place cursor.owner names last.place last.owner vs optional ∧
      last.isOptional = (cursor.isOptional || optional) ∧
      (∃ more, last.branches = cursor.branches ++ more) ∧ ∀ v ∈ vs, last.Passes position w' v)
      fun _ => True := by
  induction names generalizing cursor w session with
  | nil =>
      refine ⟨w, [], false, ?_, rfl, hc, .nil, by simp, ⟨[], by simp⟩, by simp⟩
      rw [← hnames]
      exact .refl hw
  | cons name rest ih =>
      unfold navigateAll
      rw [ends_bind]
      refine (ends_navigate hs hc hw hnames).imp (fun next after h => ?_) fun _ => id
      obtain ⟨w₁, p, h, hw₁, hdrawn, hnext, hp, he, hsingle, ht, hh, hr, hoptional, ⟨branch, hbranch⟩,
        hpasses⟩ := h
      refine (ih hnext hw₁.sound hw₁.names_eq).imp (fun last after' h' => ?_) fun _ => id
      obtain ⟨w₂, vs, optional, hw₂, hdrawn', hlast, hwalk, hoptional', ⟨more, hmore⟩, hpassed⟩ := h'
      refine ⟨w₂, next.place.var :: vs, !p.isMandatory || optional, hw₁.trans hw₂,
        hdrawn'.trans hdrawn, hlast,
        .cons hp he hsingle ht hh (hw₂.le.related hr) hwalk, ?_, ⟨branch :: more, ?_⟩, ?_⟩
      · rw [hoptional', hoptional, Bool.or_assoc]
      · rw [hmore, hbranch, List.append_assoc]
        rfl
      · exact List.forall_mem_cons.mpr ⟨hpasses.append hw₂.le hmore, hpassed⟩

theorem ends_way (hc : Compiling context scope position T lambda w session) (missing : PathFault) :
    Ends (follow context scope position path missing) session (fun reached after => ∃ q t init vs w',
      reached.1.Follows context position T lambda path w session q t init reached.2 vs w' after)
      fun _ => True := by
  refine ends_follow ((ends_start hs hc).imp (fun result between h => ⟨fun _ => trivial, ?_⟩) fun _ => id)
  obtain ⟨cursor, rest⟩ := result
  obtain ⟨rfl, hcursor, hstart, hoptional⟩ := h
  rintro init last rfl
  refine (ends_navigateAll hs hcursor hc.sound hc.names).imp (fun reached after h => ?_) fun _ => id
  obtain ⟨w₁, vs, b, hw₁, hdrawn, hreached, hwalk, hoptional₁, -, hpassed⟩ := h
  obtain rfl : reached.isOptional = b := by rw [hoptional₁, hoptional, Bool.false_or]
  exact ⟨_, _, init, vs, w₁, hw₁, hdrawn, hstart.symm, hwalk, hreached, hpassed⟩

theorem ends_ownValue {cursor : Cursor} (hc : cursor.Stands context.schema position T lambda w)
    (hw : w.Sound context.schema) (hnames : w.names = session.names) {p : Property}
    (hp : p ∈ cursor.owner.properties) (hf : p.foreignKeyOf = none) :
    Ends (readValue context path cursor p) session (fun c after => ∃ w' v b, p.isElementary = true ∧
      w.Becomes context.schema after.names w' ∧ after.drawn = session.drawn ∧ c.clause = .var v ∧
      c.forest = .ofPath (cursor.branches ++ [b]) .nil ∧
      c.mayBeUnbound = (cursor.isOptional || !p.isMandatory) ∧ w'.names.value? cursor.place p.name = some v ∧
      c.forest.Asks context.schema lambda T ∧
      ∀ w'', w' ≤ w'' → c.forest.Mentions w''.names position v)
      fun _ => True := by
  refine ends_readValue fun he branch hbranch => ?_
  obtain ⟨b, hb, hreads⟩ := hs.ofProperty (hw.declared hc.kind) hp
  obtain rfl : branch = .property b := Except.ok.inj (hbranch.symm.trans hb)
  obtain ⟨w', hw', hv⟩ := hw.ownValue hs hc.kind hp he hf
  have hsimple : b.isComplex = false := by rw [hreads.isComplex, he]; rfl
  have hkey : b.foreignKey = none := by
    obtain ⟨-, hkey⟩ | ⟨related, -, -, -, -, -, -, -, hf', -⟩ := hreads.foreignKey
    · exact hkey
    · simp [hf] at hf'
  rw [← hnames]
  refine ⟨w', _, _, he, hw', rfl, rfl, rfl, rfl, hv, ?_, fun w'' hle => ?_⟩
  · rw [Forest.ofPath_append]
    exact hc.asks ⟨⟨p, hp, hreads, fun _ => rfl, fun h => by simp [he] at h⟩, trivial⟩
  · rw [Forest.ofPath_append]
    exact hc.mentions (hw'.le.trans hle) (.value hsimple hkey (by rw [hreads.name]; exact hle.value hv))

theorem ends_compileProperty (hids : context.schema.OwnIds)
    (hc : Compiling context scope position T lambda w session) :
    Ends (compileProperty context scope position path) session (fun c after =>
      ∃ w' q t init last o O vs us b b' v, w.Becomes context.schema after.names w' ∧
        after.drawn = session.drawn ∧
        startOf lambda position.place T path = (q, t, init ++ [last]) ∧
        w'.Walk context.schema q t init o O vs b ∧ w'.Last context.schema o O last v us b' ∧
        c.clause = .var v ∧ c.mayBeUnbound = (b || b') ∧
        c.forest.Asks context.schema (among (path.take 1) lambda) T ∧
        ∀ u ∈ vs ++ us, ∀ w'', w' ≤ w'' → c.forest.Mentions w''.names position u)
      fun _ => True := by
  refine ends_compileProperty_of fun missing =>
    (ends_way hs hc missing).imp (fun reached after h => ?_) fun _ => id
  obtain ⟨cursor, last⟩ := reached
  obtain ⟨q, t, init, vs, w₁, hw₁, hdrawn, hstart, hwalk, hcursor, hpassed⟩ := h
  intro p hproperty
  have hp := EntityType.property_eq_ok.mp hproperty
  obtain ⟨hmem, rfl⟩ := EntityType.mem_of_property? hp
  have hO := hw₁.sound.declared hcursor.kind
  constructor
  · intro hkey
    have hf : p.foreignKeyOf = none := by
      obtain ⟨hf, -⟩ | ⟨_, -, _, -, _, -, -, -, -, -, -, -, hsome⟩ := hs.foreignKey? hO hmem
      · exact hf
      · simp [hkey] at hsome
    refine (ends_ownValue hs hcursor hw₁.sound hw₁.names_eq hmem hf).imp (fun c later h => ?_) fun _ => id
    obtain ⟨w₂, v, b, he, hw₂, hdrawn₂, hclause, hforest, hflag, hv, hasks, hmentions⟩ := h
    refine ⟨w₂, q, t, init, p.name, cursor.place, cursor.owner, vs, _, _, _, v, hw₁.trans hw₂,
      hdrawn₂.trans hdrawn, hstart, hwalk.mono hw₂.le, .value hp he hf hv, hclause, hflag, hasks, ?_⟩
    intro u hu w'' hle
    obtain hu | hu := List.mem_append.mp hu
    · rw [hforest, Forest.ofPath_append]
      exact hpassed u hu w'' _ (hw₂.le.trans hle)
    · obtain rfl := List.mem_singleton.mp hu
      exact hmentions w'' hle
  · intro related relatedId hkey
    obtain ⟨-, hnone⟩ | ⟨related', hrel, t', ht, i, hi, he, hf, hrelem, hsingle, htarget, hid, hkey'⟩ :=
      hs.foreignKey? hO hmem
    · simp [hkey] at hnone
    obtain ⟨rfl, rfl⟩ : related = related' ∧ relatedId = i := by simpa [hkey] using hkey'
    refine (ends_navigate hs hcursor hw₁.sound hw₁.names_eq).imp (fun next between h _ => ?_) fun _ => id
    obtain ⟨w₂, p', hop, hw₂, hdrawn₂, hnext, hp', he', hsingle', htarget', hh, hr, hoptional,
      ⟨branch, hbranch⟩, hpasses⟩ := h
    obtain rfl : related = p' := Option.some.inj ((hs.property? hO hrel).symm.trans hp')
    obtain rfl : t' = next.owner := Except.ok.inj (htarget.symm.trans htarget')
    have hname : relatedId.name = idName := (EntityType.mem_of_property? hid).2
    refine (ends_ownValue hs hnext hw₂.sound hw₂.names_eq hi (hids _ ht _ hid)).imp
      (fun c later h => ?_) fun _ => id
    obtain ⟨w₃, v, b, -, hw₃, hdrawn₃, hclause, hforest, hflag, hv, hasks, hmentions⟩ := h
    refine ⟨w₃, q, t, init, p.name, cursor.place, cursor.owner, vs, _, _, _, v, (hw₁.trans hw₂).trans hw₃,
      hdrawn₃.trans (hdrawn₂.trans hdrawn), hstart, hwalk.mono (hw₂.le.trans hw₃.le),
      .foreignKey hp he hf hp' hrelem hsingle htarget hh hid (hw₃.le.related hr) (by rw [← hname]; exact hv),
      hclause, ?_, hasks, ?_⟩
    · rw [hflag, hoptional, Bool.or_assoc]
    · intro u hu w'' hle
      obtain hu | hu := List.mem_append.mp hu
      · rw [hforest, hbranch, List.append_assoc, Forest.ofPath_append]
        exact hpassed u hu w'' _ (hw₂.le.trans (hw₃.le.trans hle))
      · obtain rfl | hu := List.mem_cons.mp hu
        · rw [hforest, Forest.ofPath_append]
          exact hpasses w'' _ (hw₃.le.trans hle)
        · obtain rfl := List.mem_singleton.mp hu
          exact hmentions w'' hle

theorem ends_compileCollection (hc : Compiling context scope position T lambda w session) :
    Ends (compileCollection context scope position path) session (fun result after =>
      ∃ q t init last vs w', result.1.Follows context position T lambda path w session q t init last vs w'
          after ∧
        result.1.owner.property? last = some result.2.1 ∧ result.2.1.isElementary = false ∧
        result.2.1.isSingle = false ∧ context.schema.hop result.2.1 = .ok result.2.2.1 ∧
        context.schema.targetType result.2.1 = .ok result.2.2.2)
      fun _ => True := by
  refine ends_compileCollection_of fun missing =>
    (ends_way hs hc missing).imp (fun reached after h => ?_) fun _ => id
  obtain ⟨q, t, init, vs, w', h⟩ := h
  intro p hop element hproperty hsingle hhop helement
  have he : p.isElementary = false := (Bool.or_eq_false_iff.mp hsingle).1
  exact ⟨q, t, init, _, vs, w', h, EntityType.property_eq_ok.mp hproperty, he, hsingle, hhop, helement⟩

end Steps
end Filter
end EntityGraph
