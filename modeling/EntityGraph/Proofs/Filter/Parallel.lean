import EntityGraph.Proofs.Filter.WellFormed
import EntityGraph.Proofs.Placement.Alpha
import Mathlib.Data.List.Forall2

/-!
# Two runs of the filter compiler

Filters that are the same up to the names of bound variables are compiled side by side, each with a supply
of scope keys of its own. Both runs fail, or both come to the same condition, having made up the same
variables, and what they ask for is the same up to the names of lambda variables.
-/
namespace EntityGraph.Filter

section Runs

variable {α α' β β' : Type} {x : FilterM α} {x' : FilterM α'} {session session' : Session}
  {good : α → α' → Session → Session → Prop} {bad : FilterError → FilterError → Prop}

/-- Both runs end well with `good`, or both with errors that are `bad`. -/
def Runs (x : FilterM α) (x' : FilterM α') (session session' : Session)
    (good : α → α' → Session → Session → Prop) (bad : FilterError → FilterError → Prop) : Prop :=
  match x.run.run session, x'.run.run session' with
  | (.ok a, after), (.ok a', after') => good a a' after after'
  | (.error e, _), (.error e', _) => bad e e'
  | _, _ => False

theorem Runs.imp {good' : α → α' → Session → Session → Prop} {bad' : FilterError → FilterError → Prop}
    (h : Runs x x' session session' good bad)
    (hgood : ∀ a a' after after', good a a' after after' → good' a a' after after')
    (hbad : ∀ e e', bad e e' → bad' e e') : Runs x x' session session' good' bad' := by
  unfold Runs at h ⊢
  split at h
  · exact hgood _ _ _ _ h
  · exact hbad _ _ h
  · exact h.elim

theorem Runs.bind {f : α → FilterM β} {f' : α' → FilterM β'} {final : β → β' → Session → Session → Prop}
    (h : Runs x x' session session' good bad)
    (hf : ∀ a a' after after', good a a' after after' → Runs (f a) (f' a') after after' final bad) :
    Runs (x >>= f) (x' >>= f') session session' final bad := by
  unfold Runs at h ⊢
  rw [run_bind, run_bind]
  generalize x.run.run session = ended at h ⊢
  generalize x'.run.run session' = ended' at h ⊢
  obtain ⟨result, after⟩ := ended
  obtain ⟨result', after'⟩ := ended'
  cases result with
  | ok a =>
      cases result' with
      | ok a' => exact hf a a' after after' h
      | error e' => exact h.elim
  | error e =>
      cases result' with
      | ok a' => exact h.elim
      | error e' => exact h

theorem Runs.and_ends {left : α → Session → Prop} {right : α' → Session → Prop}
    {lbad rbad : FilterError → Prop}
    (h : Runs x x' session session' good bad) (hleft : Ends x session left lbad)
    (hright : Ends x' session' right rbad) :
    Runs x x' session session' (fun a a' after after' => good a a' after after' ∧ left a after ∧
      right a' after') bad := by
  unfold Runs at h ⊢
  unfold Ends at hleft hright
  split at h
  · next hx hx' =>
      rw [hx] at hleft
      rw [hx'] at hright
      exact ⟨h, hleft, hright⟩
  · exact h
  · exact h.elim

theorem Ends.runs {left : α → Session → Prop} {right : α' → Session → Prop} {lbad rbad : FilterError → Prop}
    (h : Ends x session left lbad) (h' : Ends x' session' right rbad) (hno : ∀ e, ¬ lbad e)
    (hno' : ∀ e, ¬ rbad e) :
    Runs x x' session session' (fun a a' after after' => left a after ∧ right a' after') bad := by
  unfold Ends at h h'
  unfold Runs
  generalize x.run.run session = ended at h ⊢
  generalize x'.run.run session' = ended' at h' ⊢
  obtain ⟨result, after⟩ := ended
  obtain ⟨result', after'⟩ := ended'
  cases result with
  | error e => exact absurd h (hno e)
  | ok a =>
      cases result' with
      | error e => exact absurd h' (hno' e)
      | ok a' => exact ⟨h, h'⟩

theorem Runs.get {f : Session → FilterM α} {f' : Session → FilterM α'}
    (h : Runs (f session) (f' session') session session' good bad) :
    Runs (MonadState.get >>= f) (MonadState.get >>= f') session session' good bad := h

/-- A question to the schema, which has the same answer on both sides. -/
theorem Runs.schema {γ : Type} {answer : Except SchemaError γ} {f : γ → FilterM α} {f' : γ → FilterM α'}
    (hbad : ∀ e, bad e e) (h : ∀ a, answer = .ok a → Runs (f a) (f' a) session session' good bad) :
    Runs (liftSchema answer >>= f) (liftSchema answer >>= f') session session' good bad := by
  cases answer with
  | ok a => exact h a rfl
  | error e => exact hbad _

theorem Runs.naming {γ : Type} {step step' : Naming → γ × Naming} {f : γ → FilterM α} {f' : γ → FilterM α'}
    (hstep : ∃ a after after', step session.names = (a, after) ∧ step' session'.names = (a, after') ∧
      after.Same after')
    (h : ∀ a after after', step session.names = (a, after) → step' session'.names = (a, after') →
      after.Same after' →
      Runs (f a) (f' a) { session with names := after } { session' with names := after' } good bad) :
    Runs (Filter.naming step >>= f) (Filter.naming step' >>= f') session session' good bad := by
  obtain ⟨a, after, after', hleft, hright, hsame⟩ := hstep
  have hgoal := h a after after' hleft hright hsame
  have hrun : ∀ {γ β : Type} (step : Naming → γ × Naming) (f : γ → FilterM β) (session : Session),
      (Filter.naming step >>= f).run.run session =
        (f (step session.names).1).run.run { session with names := (step session.names).2 } :=
        fun _ _ _ => rfl
  unfold Runs at hgoal ⊢
  rw [hrun, hrun, hleft, hright]
  exact hgoal

end Runs

/-- The cursors stand at the same entity, and the ways to it are the same up to lambda variables. -/
structure Cursor.Alike (pairs : List (String × String)) (cursor cursor' : Cursor) : Prop where
  branches : List.Forall₂ (Branch.Alpha pairs) cursor.branches cursor'.branches
  owner : cursor.owner = cursor'.owner
  place : cursor.place = cursor'.place
  isOptional : cursor.isOptional = cursor'.isOptional

/-- What holds while filters on entities of type `T` are compiled side by side. -/
structure Together (schema : Schema) (key key' : Nat → ScopeKey) (pairs : List (String × String))
    (scope scope' : FilterScope) (position position' : Position) (T : EntityType)
    (lambda lambda' : String → Option EntityType) (session session' : Session) : Prop where
  left : Ready ⟨schema, Rule.builtin, key⟩ scope position T lambda session
  right : Ready ⟨schema, Rule.builtin, key'⟩ scope' position' T lambda' session'
  place : position.place = position'.place
  same : session.names.Same session'.names
  agree : Naming.Agree pairs session.names position.scope session'.names position'.scope
  lambdas : ∀ {name name'}, Corresponds pairs name name' → lambda name = lambda' name'
  /-- A name that is not bound stands for itself. -/
  free : ∀ {name name'}, Corresponds pairs name name' → lambda name = none → name = name'

/-- The same condition, and what is asked for is the same up to lambda variables, wherever it is placed. -/
structure Alike (pairs : List (String × String)) (compiled compiled' : CompiledFilter) : Prop where
  clause : compiled.clause = compiled'.clause
  mayBeUnbound : compiled.mayBeUnbound = compiled'.mayBeUnbound
  forest : ∀ {names names' scope scope'}, Forest.Alpha names names' pairs scope scope' compiled.forest
    compiled'.forest

section Steps

variable {schema : Schema} {key key' : Nat → ScopeKey} {pairs : List (String × String)}
  {scope scope' : FilterScope} {position position' : Position} {T : EntityType}
  {lambda lambda' : String → Option EntityType} {session session' after after' : Session}
  {path path' : List String}

theorem Together.grows
    (h : Together schema key key' pairs scope scope' position position' T lambda lambda' session session')
    (hg : session.Grows ⟨schema, Rule.builtin, key⟩ after)
    (hg' : session'.Grows ⟨schema, Rule.builtin, key'⟩ after') (hsame : after.names.Same after'.names) :
    Together schema key key' pairs scope scope' position position' T lambda lambda' after after' where
  left := h.left.grows hg
  right := h.right.grows hg'
  place := h.place
  same := hsame
  agree name name' hname found := by
    rw [hg.resolve h.left.known, hg'.resolve h.right.known]
    exact h.agree hname found
  lambdas := h.lambdas
  free := h.free

theorem isProperty_ofProperty {owner : EntityType} {p : Property} {branch : Branch}
    (h : Branch.ofProperty schema owner p = .ok branch) : branch.IsProperty := by
  unfold Branch.ofProperty at h
  simp only [bind, Except.bind, pure, Except.pure] at h
  cases branch with
  | property b => exact ⟨b, rfl⟩
  | lambda name type => grind
  | any a => grind

theorem Cursor.Alike.snoc {cursor cursor' : Cursor} (h : cursor.Alike pairs cursor') {branch : Branch}
    (hbranch : branch.IsProperty) :
    List.Forall₂ (Branch.Alpha pairs) (cursor.branches ++ [branch]) (cursor'.branches ++ [branch]) := by
  obtain ⟨b, rfl⟩ := hbranch
  exact List.rel_append h.branches (.cons (.property b) .nil)

theorem runs_start
    (h : Together schema key key' pairs scope scope' position position' T lambda lambda' session session')
    (hpath : SamePath pairs path path') :
    Runs (start ⟨schema, Rule.builtin, key⟩ scope position path)
      (start ⟨schema, Rule.builtin, key'⟩ scope' position' path') session session'
      (fun result result' after after' => after = session ∧ after' = session' ∧ result.2 = result'.2 ∧
        result.1.Alike pairs result'.1) fun e e' => path = path' → e = e' := by
  unfold start
  rw [h.left.type, h.right.type]
  refine .schema (fun _ _ => rfl) fun owner _ => ?_
  have hhere : Cursor.Alike pairs { branches := [], owner, place := position.place }
      { branches := [], owner, place := position'.place } := ⟨.nil, rfl, h.place, rfl⟩
  cases hpath with
  | nil => exact ⟨rfl, rfl, rfl, hhere⟩
  | @cons name name' rest hname =>
      simp only [h.left.lambdas, h.right.lambdas, ← h.lambdas hname]
      cases hlambda : lambda name with
      | none =>
          obtain rfl := h.free hname hlambda
          exact ⟨rfl, rfl, rfl, hhere⟩
      | some t =>
          obtain ⟨place, hplace⟩ := h.left.bound name t hlambda
          have hplace' := (h.agree hname _).mp hplace
          simp only [Option.map_some, Option.isNone_some, Bool.false_eq_true, if_false]
          refine .get ?_
          simp only [hplace, hplace']
          refine .schema (fun _ _ => rfl) fun owner _ => ?_
          exact ⟨rfl, rfl, rfl, .cons (.lambda hname _) .nil, rfl, rfl, rfl⟩

theorem runs_navigate {cursor cursor' : Cursor} (hc : cursor.Alike pairs cursor')
    (hsame : session.names.Same session'.names) (name : String) :
    Runs (navigate ⟨schema, Rule.builtin, key⟩ path cursor name)
      (navigate ⟨schema, Rule.builtin, key'⟩ path' cursor' name) session session'
      (fun next next' after after' => next.Alike pairs next' ∧ after.names.Same after'.names)
      fun e e' => path = path' → e = e' := by
  unfold navigate
  rw [← hc.owner, ← hc.place, ← hc.isOptional]
  refine .schema (fun _ _ => rfl) fun p _ => ?_
  cases p.isElementary with
  | true =>
      rintro rfl
      rfl
  | false =>
      cases p.isSingle with
      | false =>
          rintro rfl
          rfl
      | true =>
          refine .schema (fun _ _ => rfl) fun branch hbranch => ?_
          refine .naming (hsame.relatedPlace cursor.place name) fun place names names' _ _ hnames => ?_
          refine .schema (fun _ _ => rfl) fun owner _ => ?_
          exact ⟨⟨hc.snoc (isProperty_ofProperty hbranch), rfl, rfl, rfl⟩, hnames⟩

theorem runs_navigateAll {cursor cursor' : Cursor} (hc : cursor.Alike pairs cursor')
    (hsame : session.names.Same session'.names) (rest : List String) :
    Runs (navigateAll ⟨schema, Rule.builtin, key⟩ path cursor rest)
      (navigateAll ⟨schema, Rule.builtin, key'⟩ path' cursor' rest) session session'
      (fun next next' after after' => next.Alike pairs next' ∧ after.names.Same after'.names)
      fun e e' => path = path' → e = e' := by
  induction rest generalizing cursor cursor' session session' with
  | nil => exact ⟨hc, hsame⟩
  | cons name rest ih => exact (runs_navigate hc hsame name).bind fun next next' after after' h => ih h.1 h.2

theorem runs_follow
    (h : Together schema key key' pairs scope scope' position position' T lambda lambda' session session')
    (hpath : SamePath pairs path path') (missing : PathFault) :
    Runs (follow ⟨schema, Rule.builtin, key⟩ scope position path missing)
      (follow ⟨schema, Rule.builtin, key'⟩ scope' position' path' missing) session session'
      (fun reached reached' after after' => reached.1.Alike pairs reached'.1 ∧ reached.2 = reached'.2 ∧
        after.names.Same after'.names)
      fun e e' => path = path' → e = e' := by
  unfold follow
  refine (runs_start h hpath).bind fun ⟨cursor, rest⟩ ⟨cursor', rest'⟩ between between' hstart => ?_
  obtain ⟨rfl, rfl, hrest, hc⟩ := hstart
  obtain rfl : rest = rest' := hrest
  obtain rfl | ⟨init, last, rfl⟩ := List.eq_nil_or_concat rest
  · rintro rfl
    rfl
  simp only [List.concat_eq_append, List.getLast?_append, List.getLast?_singleton, Option.some_or,
    List.dropLast_concat]
  exact (runs_navigateAll hc h.same init).bind fun _ _ _ _ hhops => ⟨hhops.1, rfl, hhops.2⟩

theorem runs_readValue {cursor cursor' : Cursor} (hc : cursor.Alike pairs cursor')
    (hsame : session.names.Same session'.names) (p : Property) :
    Runs (readValue ⟨schema, Rule.builtin, key⟩ path cursor p)
      (readValue ⟨schema, Rule.builtin, key'⟩ path' cursor' p) session session'
      (fun compiled compiled' after after' => Alike pairs compiled compiled' ∧ after.names.Same after'.names)
      fun e e' => path = path' → e = e' := by
  unfold readValue
  rw [← hc.owner, ← hc.place, ← hc.isOptional]
  cases p.isElementary with
  | false =>
      rintro rfl
      rfl
  | true =>
      refine .schema (fun _ _ => rfl) fun branch hbranch => ?_
      refine .naming (hsame.value cursor.place p.name) fun var names names' _ _ hnames => ?_
      exact ⟨⟨rfl, rfl, .ofPath (hc.snoc (isProperty_ofProperty hbranch)) .nil⟩, hnames⟩

theorem runs_compileProperty
    (h : Together schema key key' pairs scope scope' position position' T lambda lambda' session session')
    (hpath : SamePath pairs path path') :
    Runs (compileProperty ⟨schema, Rule.builtin, key⟩ scope position path)
      (compileProperty ⟨schema, Rule.builtin, key'⟩ scope' position' path') session session'
      (fun compiled compiled' after after' => Alike pairs compiled compiled' ∧ after.names.Same after'.names)
      fun e e' => path = path' → e = e' := by
  unfold compileProperty
  refine (runs_follow h hpath .noProperty).bind
    fun ⟨cursor, last⟩ ⟨cursor', last'⟩ between between' hreached => ?_
  obtain ⟨hc, hlast, hsame⟩ := hreached
  obtain rfl : last = last' := hlast
  simp only at hc ⊢
  rw [← hc.owner]
  refine .schema (fun _ _ => rfl) fun p _ => .schema (fun _ _ => rfl) fun foreignKey _ => ?_
  cases foreignKey with
  | none => exact runs_readValue hc hsame p
  | some key =>
      obtain ⟨related, relatedId⟩ := key
      exact (runs_navigate hc hsame related.name).bind fun next next' later later' hnext =>
        runs_readValue hnext.1 hnext.2 relatedId

theorem runs_compileCollection
    (h : Together schema key key' pairs scope scope' position position' T lambda lambda' session session')
    (hpath : SamePath pairs path path') :
    Runs (compileCollection ⟨schema, Rule.builtin, key⟩ scope position path)
      (compileCollection ⟨schema, Rule.builtin, key'⟩ scope' position' path') session session'
      (fun result result' after after' => result.1.Alike pairs result'.1 ∧ result.2 = result'.2 ∧
        after.names.Same after'.names)
      fun e e' => path = path' → e = e' := by
  unfold compileCollection
  refine (runs_follow h hpath .noCollection).bind
    fun ⟨cursor, last⟩ ⟨cursor', last'⟩ between between' hreached => ?_
  obtain ⟨hc, hlast, hsame⟩ := hreached
  obtain rfl : last = last' := hlast
  simp only at hc ⊢
  rw [← hc.owner]
  refine .schema (fun _ _ => rfl) fun p _ => ?_
  cases p.isSingle with
  | true =>
      rintro rfl
      rfl
  | false =>
      refine .schema (fun _ _ => rfl) fun hop _ => .schema (fun _ _ => rfl) fun element _ => ?_
      exact ⟨hc, rfl, hsame⟩

theorem ends_bound {context : FilterContext} (hkey : Function.Injective context.key)
    (h : Ready context scope position T lambda session) (name type : String) :
    Ends (openScope context position.scope name type) session (fun result after =>
      result.1 = context.key session.drawn ∧
      after.names = session.names.bound (position.scope.enter result.1) name type) fun _ => False := by
  rw [ends_openScope_iff, h.definitions.define (session.key_notMem_keys hkey)]
  exact ⟨rfl, rfl⟩

/-- The lambda variables of corresponding `any`s stand for the same new entity, each in a new scope. -/
theorem runs_openScope (hkey : Function.Injective key) (hkey' : Function.Injective key')
    (h : Together schema key key' pairs scope scope' position position' T lambda lambda' session session')
    {t : EntityType} (ht : t ∈ schema.types) (name name' : String) :
    Runs (openScope ⟨schema, Rule.builtin, key⟩ position.scope name t.name)
      (openScope ⟨schema, Rule.builtin, key'⟩ position'.scope name' t.name) session session'
      (fun result result' after after' => session.Grows ⟨schema, Rule.builtin, key⟩ after ∧
        session'.Grows ⟨schema, Rule.builtin, key'⟩ after' ∧ result.2 = position.scope.enter result.1 ∧
        result'.2 = position'.scope.enter result'.1 ∧
        Together schema key key' ((name, name') :: pairs) (scope.withLambda name t.name)
          (scope'.withLambda name' t.name) { position with scope := result.2 }
          { position' with scope := result'.2 } T (Function.update lambda name (some t))
          (Function.update lambda' name' (some t)) after after') fun _ _ => False := by
  have hleft := (ends_bound hkey h.left name t.name).and (ends_scope hkey h.left ht name)
  have hright := (ends_bound hkey' h.right name' t.name).and (ends_scope hkey' h.right ht name')
  refine (hleft.runs hright (fun _ => And.left) fun _ => And.left).imp ?_ fun _ _ => id
  rintro ⟨k, inner⟩ ⟨k', inner'⟩ after after'
    ⟨⟨⟨hk, hnames⟩, hg, hinner, hready⟩, ⟨hk', hnames'⟩, hg', hinner', hready'⟩
  simp only at hk hk' hinner hinner' hnames hnames' hready hready' ⊢
  subst hk hk' hinner hinner'
  have hnew : key session.drawn ∉ session.keys ⟨schema, Rule.builtin, key⟩ := session.key_notMem_keys hkey
  have hnew' : key' session'.drawn ∉ session'.keys ⟨schema, Rule.builtin, key'⟩ :=
    session'.key_notMem_keys hkey'
  have hsame : after.names.Same after'.names := by
    rw [hnames, hnames']
    exact h.same.bound
  have hagree : Naming.Agree ((name, name') :: pairs) after.names (position.scope.enter (key session.drawn))
      after'.names (position'.scope.enter (key' session'.drawn)) := by
    rw [hnames, hnames']
    exact h.agree.bound h.same h.left.definitions h.right.definitions hnew hnew' h.left.known
      h.right.known t.name
  refine ⟨hg, hg', rfl, rfl, hready, hready', h.place, hsame, hagree, ?_, ?_⟩
  · intro other other' hother
    obtain ⟨rfl, rfl⟩ | ⟨hne, hne', hother⟩ := hother
    · rw [Function.update_self, Function.update_self]
    · rw [Function.update_of_ne hne, Function.update_of_ne hne']
      exact h.lambdas hother
  · intro other other' hother hnone
    obtain ⟨rfl, rfl⟩ | ⟨hne, hne', hother⟩ := hother
    · simp at hnone
    · rw [Function.update_of_ne hne] at hnone
      exact h.free hother hnone

theorem runs_placeJoin
    (h : Together schema key key' pairs scope scope' position position' T lambda lambda' session session')
    {join join' : Forest}
    (hjoin : Forest.Alpha session.names session'.names pairs position.scope position'.scope join join')
    (hr : join.Resolves session.names position.scope) :
    Runs (placeJoin ⟨schema, Rule.builtin, key⟩ position join)
      (placeJoin ⟨schema, Rule.builtin, key'⟩ position' join') session session'
      (fun pattern pattern' after after' => pattern = pattern' ∧ after.names.Same after'.names)
      fun _ _ => False := by
  have hplaced := hjoin.place (.refl _) (.refl _) h.same h.agree hr position.place
  have hposition : position' = ⟨position.place, position'.scope⟩ := by rw [h.place]
  have hends : Ends (placeJoin ⟨schema, Rule.builtin, key⟩ position join) session
      (fun pattern after => pattern = ⟨position.place.var,
        (join.place Rule.builtin position session.names).body⟩ ∧
        after.names = (join.place Rule.builtin position session.names).names) fun _ => False := by
    rw [ends_placeJoin_iff rfl, hplaced.failure]
    exact ⟨rfl, rfl⟩
  have hends' : Ends (placeJoin ⟨schema, Rule.builtin, key'⟩ position' join') session'
      (fun pattern after => pattern = ⟨position.place.var,
        (join.place Rule.builtin position session.names).body⟩ ∧
        (join.place Rule.builtin position session.names).names.Same after.names) fun _ => False := by
    rw [hposition, ends_placeJoin_iff rfl, hplaced.failure']
    exact ⟨by rw [hplaced.body], hplaced.names⟩
  refine (hends.runs hends' (fun _ => id) fun _ => id).imp ?_ fun _ _ => id
  rintro _ _ after after' ⟨⟨rfl, hnames⟩, rfl, hsame⟩
  exact ⟨rfl, hnames ▸ hsame⟩

theorem runs_both (hs : schema.Accepted) (hkey : Function.Injective key) (hkey' : Function.Injective key')
    (h : Together schema key key' pairs scope scope' position position' T lambda lambda' session session')
    {left left' right right' : Filter} {result : CompiledFilter → CompiledFilter → CompiledFilter}
    (hresult : ∀ {l l' r r'}, Alike pairs l l' → Alike pairs r r' → r.forest.Made (Branch.IsTop lambda) →
      Alike pairs (result l r) (result l' r'))
    (hleft : Runs (left.compile ⟨schema, Rule.builtin, key⟩ scope position)
      (left'.compile ⟨schema, Rule.builtin, key'⟩ scope' position') session session'
      (fun compiled compiled' after after' => Alike pairs compiled compiled' ∧ after.names.Same after'.names)
      fun e e' => left = left' → e = e')
    (hright : ∀ {after after'},
      Together schema key key' pairs scope scope' position position' T lambda lambda' after after' →
      Runs (right.compile ⟨schema, Rule.builtin, key⟩ scope position)
        (right'.compile ⟨schema, Rule.builtin, key'⟩ scope' position') after after'
        (fun compiled compiled' after after' => Alike pairs compiled compiled' ∧
          after.names.Same after'.names)
        fun e e' => right = right' → e = e') :
    Runs
      (do
        let l ← left.compile ⟨schema, Rule.builtin, key⟩ scope position
        let r ← right.compile ⟨schema, Rule.builtin, key⟩ scope position
        return result l r)
      (do
        let l ← left'.compile ⟨schema, Rule.builtin, key'⟩ scope' position'
        let r ← right'.compile ⟨schema, Rule.builtin, key'⟩ scope' position'
        return result l r)
      session session'
      (fun compiled compiled' after after' => Alike pairs compiled compiled' ∧ after.names.Same after'.names)
      fun e e' => left = left' ∧ right = right' → e = e' := by
  have hends := decides_compile hs rfl hkey left h.left
  have hends' := decides_compile hs rfl hkey' left' h.right
  refine Runs.bind ((hleft.and_ends hends hends').imp (fun _ _ _ _ => id) fun e e' hbad heq => hbad heq.1) ?_
  rintro l l' between between' ⟨⟨hl, hsame⟩, ⟨hg, -⟩, hg', -⟩
  have hbetween := h.grows hg hg' hsame
  have hmade := decides_compile hs rfl hkey right hbetween.left
  have hmade' := decides_compile hs rfl hkey' right' hbetween.right
  refine Runs.bind (((hright hbetween).and_ends hmade hmade').imp (fun _ _ _ _ => id)
    fun e e' hbad heq => hbad heq.2) ?_
  rintro r r' after after' ⟨⟨hr, hafter⟩, ⟨-, hmade, -⟩, -⟩
  exact ⟨hresult hl hr hmade, hafter⟩

theorem runs_any (hs : schema.Accepted) (hkey : Function.Injective key) (hkey' : Function.Injective key')
    (h : Together schema key key' pairs scope scope' position position' T lambda lambda' session session')
    {path path' : List String} {name name' : String} {predicate predicate' : Filter}
    (hpath : SamePath pairs path path')
    (hpredicate : ∀ {scope scope' position position' lambda lambda' session session'},
      Together schema key key' ((name, name') :: pairs) scope scope' position position' T lambda lambda'
        session session' →
      Runs (predicate.compile ⟨schema, Rule.builtin, key⟩ scope position)
        (predicate'.compile ⟨schema, Rule.builtin, key'⟩ scope' position') session session'
        (fun compiled compiled' after after' =>
          Alike ((name, name') :: pairs) compiled compiled' ∧ after.names.Same after'.names)
        fun e e' => predicate = predicate' → e = e') :
    Runs ((any path name predicate).compile ⟨schema, Rule.builtin, key⟩ scope position)
      ((any path' name' predicate').compile ⟨schema, Rule.builtin, key'⟩ scope' position') session session'
      (fun compiled compiled' after after' => Alike pairs compiled compiled' ∧ after.names.Same after'.names)
      fun e e' => any path name predicate = any path' name' predicate' → e = e' := by
  unfold compile
  refine Runs.bind (((runs_compileCollection h hpath).and_ends (ends_collection hs h.left)
    (ends_collection hs h.right)).imp (fun _ _ _ _ => id) fun e e' hbad heq => hbad (Filter.any.inj heq).1) ?_
  rintro ⟨cursor, p, hop, t⟩ ⟨cursor', p', hop', t'⟩ between between'
    ⟨⟨hc, heq, hsame⟩, ⟨hg, hleads, ht, -⟩, hg', -⟩
  obtain ⟨rfl, rfl, rfl⟩ : p = p' ∧ hop = hop' ∧ t = t' := by simpa using heq
  have hbetween := h.grows hg hg' hsame
  refine Runs.bind ((runs_openScope hkey hkey' hbetween ht name name').imp (fun _ _ _ _ => id)
    fun _ _ => False.elim) ?_
  rintro ⟨k, inner⟩ ⟨k', inner'⟩ opened opened' ⟨hopened, hopened', hinner, hinner', hinside⟩
  simp only at hinner hinner' hinside
  subst hinner hinner'
  refine Runs.bind (((hpredicate hinside).and_ends (decides_compile hs rfl hkey predicate hinside.left)
    (decides_compile hs rfl hkey' predicate' hinside.right)).imp (fun _ _ _ _ => id)
    fun e e' hbad heq => hbad (Filter.any.inj heq).2.2) ?_
  rintro body body' later later' ⟨⟨hbody, hlatersame⟩, ⟨hlater, hmade, -⟩, hlater', -⟩
  have houter := hbetween.grows (hopened.trans hlater) (hopened'.trans hlater') hlatersame
  have hwithin := hinside.grows hlater hlater' hlatersame
  have hresolves := hmade.resolves_join (a := { name := p.name, hop, lambda := name, key := k })
    (fun hlast => hleads.resolves houter.left.bound hlast) houter.left.bound hwithin.left.bound
  have hjoin : Forest.Alpha later.names later'.names pairs position.scope position'.scope
      (joinForest cursor.branches { name := p.name, hop, lambda := name, key := k } t.name body.forest)
      (joinForest cursor'.branches { name := p.name, hop, lambda := name', key := k' } t.name body'.forest) :=
    hbody.forest.join hc.branches rfl hwithin.agree hmade
  refine Runs.bind ((runs_placeJoin houter hjoin hresolves).imp (fun _ _ _ _ => id) fun _ _ => False.elim) ?_
  rintro pattern _ final final' ⟨rfl, hfinal⟩
  exact ⟨⟨by rw [hbody.clause], rfl, .ofPath hc.branches .nil⟩, hfinal⟩

/-- Filters that are the same up to the names of bound variables are compiled alike. -/
theorem runs_compile (hs : schema.Accepted) (hkey : Function.Injective key) (hkey' : Function.Injective key')
    {f f' : Filter} (hf : Alpha pairs f f')
    (h : Together schema key key' pairs scope scope' position position' T lambda lambda' session session') :
    Runs (f.compile ⟨schema, Rule.builtin, key⟩ scope position)
      (f'.compile ⟨schema, Rule.builtin, key'⟩ scope' position') session session'
      (fun compiled compiled' after after' => Alike pairs compiled compiled' ∧ after.names.Same after'.names)
      fun e e' => f = f' → e = e' := by
  have htop : ∀ {lambda : String → Option EntityType} (a : AnyBranch), ¬ Branch.IsTop lambda (.any a) := by
    rintro lambda a (⟨b, heq⟩ | ⟨name, t, heq, -⟩)
    · cases heq
    · cases heq
  induction hf generalizing scope scope' position position' lambda lambda' session session' with
  | string value => exact ⟨⟨rfl, rfl, .nil⟩, h.same⟩
  | boolean value => exact ⟨⟨rfl, rfl, .nil⟩, h.same⟩
  | number value =>
      unfold compile
      cases numberText value with
      | ok text => exact ⟨⟨rfl, rfl, .nil⟩, h.same⟩
      | error e => exact fun _ => rfl
  | null =>
      unfold compile
      refine .naming h.same.fresh fun var names names' _ _ hnames => ?_
      exact ⟨⟨rfl, rfl, .nil⟩, hnames⟩
  | and _ _ ihl ihr =>
      refine (runs_both hs hkey hkey' h (fun hl hr hmade => ?_) (ihl h) fun h => ihr h).imp
        (fun _ _ _ _ => id) fun e e' hbad heq => hbad (Filter.and.inj heq)
      exact ⟨by rw [hl.clause, hr.clause], rfl, hl.forest.merge hr.forest hmade htop⟩
  | or _ _ ihl ihr =>
      refine (runs_both hs hkey hkey' h (fun hl hr hmade => ?_) (ihl h) fun h => ihr h).imp
        (fun _ _ _ _ => id) fun e e' hbad heq => hbad (Filter.or.inj heq)
      exact ⟨by rw [hl.clause, hr.clause], rfl, hl.forest.merge hr.forest hmade htop⟩
  | eq _ _ ihl ihr =>
      refine (runs_both hs hkey hkey' h (fun hl hr hmade => ?_) (ihl h) fun h => ihr h).imp
        (fun _ _ _ _ => id) fun e e' hbad heq => hbad (Filter.eq.inj heq)
      exact ⟨by rw [hl.clause, hr.clause, hl.mayBeUnbound, hr.mayBeUnbound], rfl,
        hl.forest.merge hr.forest hmade htop⟩
  | parentheses _ ih =>
      exact (ih h).imp (fun _ _ _ _ => id) fun e e' hbad heq => hbad (Filter.parentheses.inj heq)
  | property hpath =>
      exact (runs_compileProperty h hpath).imp (fun _ _ _ _ => id) fun e e' hbad heq =>
        hbad (Filter.property.inj heq)
  | any hpath _ ih => exact runs_any hs hkey hkey' h hpath fun h => ih h

end Steps
end EntityGraph.Filter
