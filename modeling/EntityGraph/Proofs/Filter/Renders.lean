import EntityGraph.Proofs.Filter.Value
import EntityGraph.Proofs.Filter.Walk

/-!
# Clauses of filters

`Renders` relates a filter to the clause that it is compiled to: a path to the variable at its end, an
`any` to an `EXISTS` over a pattern that is laid on the chart, extended by the edge to the elements. The
pattern has all variables that the clause inside it depends on. The lambda variables of a filter have
numbers from some number on, which tells them apart from what is named outside.

Whatever the compiler ends well with is so related to the filter.
-/
namespace EntityGraph.Filter

open Sparql (Clause)

/-- What is known outside the pattern of an `any` over the elements `l` of a collection of `o`. -/
def elementOutlook (q : Place) (lambda : String → Option (Place × EntityType)) (l o : Place) (hop : Hop) :
    Outlook where
  top := q.var
  lambda := lambda
  link v := if v = l.var then some (o.var, hop) else none

/-- The clause of a filter on the entity `q` of type `T`, whether it may be unbound, and the variables that
it depends on. -/
inductive Renders (schema : Schema) (w : Survey) (q : Place) (T : EntityType) :
    Nat → (String → Option (Place × EntityType)) → Filter → Clause → Bool → List String → Prop
  | string {base lambda} {text : String} :
      Renders schema w q T base lambda (.string text) (.string text) false []
  | number {base lambda} {v : Binary64} {text : String} (h : numberText v = .ok text) :
      Renders schema w q T base lambda (.number v) (.number text) false []
  | boolean {base lambda} {b : Bool} :
      Renders schema w q T base lambda (.boolean b) (.boolean b) false []
  | null {base lambda} {k : Nat} (hk : k < w.names.next) (hl : w.chart.link (variableName k) = none)
      (hkind : w.chart.kind (variableName k) = none) :
      Renders schema w q T base lambda .null (.var (variableName k)) true []
  | and {base lambda} {f g : Filter} {c d : Clause} {b b' : Bool} {vs us : List String}
      (hf : Renders schema w q T base lambda f c b vs) (hg : Renders schema w q T base lambda g d b' us) :
      Renders schema w q T base lambda (.and f g) (.and c d) false (vs ++ us)
  | or {base lambda} {f g : Filter} {c d : Clause} {b b' : Bool} {vs us : List String}
      (hf : Renders schema w q T base lambda f c b vs) (hg : Renders schema w q T base lambda g d b' us) :
      Renders schema w q T base lambda (.or f g) (.or c d) false (vs ++ us)
  | eq {base lambda} {f g : Filter} {c d : Clause} {b b' : Bool} {vs us : List String}
      (hf : Renders schema w q T base lambda f c b vs) (hg : Renders schema w q T base lambda g d b' us) :
      Renders schema w q T base lambda (.eq f g) (.nullSafeEqual c d (b || b')) false (vs ++ us)
  | parentheses {base lambda} {f : Filter} {c : Clause} {b : Bool} {vs : List String}
      (hf : Renders schema w q T base lambda f c b vs) :
      Renders schema w q T base lambda (.parentheses f) c b vs
  | property {base lambda} {path init vs us : List String} {s o : Place} {S O : EntityType}
      {last v : String} {b b' : Bool} (hstart : startOf lambda q T path = (s, S, init ++ [last]))
      (hkind : w.chart.kind s.var = some S) (hwalk : w.Walk schema s S init o O vs b)
      (hlast : w.Last schema o O last v us b') :
      Renders schema w q T base lambda (.property path) (.var v) (b || b') (vs ++ us)
  | any {base lambda} {path init vs us : List String} {s o l : Place} {S O t : EntityType}
      {x last : String} {p : Property} {hop : Hop} {f : Filter} {c : Clause} {B : Body} {b b' : Bool}
      (hstart : startOf lambda q T path = (s, S, init ++ [last]))
      (hkind : w.chart.kind s.var = some S) (hwalk : w.Walk schema s S init o O vs b)
      (hp : O.property? last = some p) (he : p.isElementary = false) (hhop : schema.hop p = .ok hop)
      (ht : schema.targetType p = .ok t) (ho : o.number < l.number) (hbase : base ≤ l.number)
      (hl : w.chart.link l.var = none) (hlkind : w.chart.kind l.var = some t)
      (hf : Renders schema w q T (l.number + 1) (Function.update lambda x (some (l, t))) f c b' us)
      (hlaid : B.Each (Body.laid schema w.chart
        (elementOutlook q (among (heads (.any path x f)) lambda) l o hop)) q.var)
      (hnarrow : B.Narrow) (htargets : ∀ v ∈ l.var :: (vs ++ us), v ∈ B.targets) :
      Renders schema w q T base lambda (.any path x f) (.existing (Pattern.group ⟨q.var, B⟩) c) false []

variable {schema : Schema} {w w' : Survey} {q : Place} {T : EntityType} {base : Nat}
  {lambda : String → Option (Place × EntityType)} {f : Filter} {c : Clause} {b : Bool} {vs : List String}

theorem Renders.mono (h : Renders schema w q T base lambda f c b vs) (hw : w.Sound schema) (hle : w ≤ w') :
    Renders schema w' q T base lambda f c b vs := by
  induction h with
  | string => exact .string
  | number h => exact .number h
  | boolean => exact .boolean
  | null hk hl hkind =>
      apply Renders.null (lt_of_lt_of_le hk hle.next)
      · rw [hle.link _ hk, hl]
      · rw [hle.kind _ hk, hkind]
  | and _ _ ihf ihg => exact .and ihf ihg
  | or _ _ ihf ihg => exact .or ihf ihg
  | eq _ _ ihf ihg => exact .eq ihf ihg
  | parentheses _ ih => exact .parentheses ih
  | property hstart hkind hwalk hlast =>
      exact .property hstart (hw.kind_le hle hkind) (hwalk.mono hle) (hlast.mono hle)
  | any hstart hkind hwalk hp he hhop ht ho hbase hl hlkind _ hlaid hnarrow htargets ih =>
      exact .any hstart (hw.kind_le hle hkind) (hwalk.mono hle) hp he hhop ht ho hbase
        ((hle.link _ (hw.number_lt hlkind)).trans hl) (hw.kind_le hle hlkind) ih
        (hlaid.laid_le hw hle) hnarrow htargets

theorem Renders.of_le (h : Renders schema w q T base lambda f c b vs) {least : Nat} (hbase : least ≤ base) :
    Renders schema w q T least lambda f c b vs := by
  induction h with
  | string => exact .string
  | number h => exact .number h
  | boolean => exact .boolean
  | null hk hl hkind => exact .null hk hl hkind
  | and _ _ ihf ihg => exact .and (ihf hbase) (ihg hbase)
  | or _ _ ihf ihg => exact .or (ihf hbase) (ihg hbase)
  | eq _ _ ihf ihg => exact .eq (ihf hbase) (ihg hbase)
  | parentheses _ ih => exact .parentheses (ih hbase)
  | property hstart hkind hwalk hlast => exact .property hstart hkind hwalk hlast
  | any hstart hkind hwalk hp he hhop ht ho hnumber hl hlkind hf hlaid hnarrow htargets _ =>
      exact .any hstart hkind hwalk hp he hhop ht ho (hbase.trans hnumber) hl hlkind hf hlaid hnarrow htargets

section Compile

variable {context : FilterContext} {scope : FilterScope} {position : Position} {session after : Session}

theorem Compiling.later (h : Compiling context scope position T lambda w session) (hle : w ≤ w')
    (hsound : w'.Sound context.schema) (hnames : w'.names = after.names)
    (hkeys : ∀ k ∈ w'.keys, ∃ i < after.drawn, k = context.key i) :
    Compiling context scope position T lambda w' after where
  sound := hsound
  names := hnames
  keys := hkeys
  kind := h.sound.kind_le hle h.kind
  type := h.type
  lambdas := h.lambdas
  bound name q t hlambda w'' hle' := h.bound name q t hlambda w'' (hle.trans hle')
  unlinked name q t hlambda := by
    have hkind := (h.bound name q t hlambda w (le_refl w)).2
    rw [Place.var, hle.link q.number (h.sound.number_lt hkind)]
    exact h.unlinked name q t hlambda
  known k hk := hle.keys (h.known k hk)

theorem Compiling.startOf_kind (h : Compiling context scope position T lambda w session)
    {path rest : List String} {s : Place} {S : EntityType}
    (hstart : startOf lambda position.place T path = (s, S, rest)) : w.chart.kind s.var = some S := by
  cases path with
  | nil =>
      obtain ⟨rfl, rfl, -⟩ : position.place = s ∧ T = S ∧ [] = rest := by simpa [startOf] using hstart
      exact h.kind
  | cons first more =>
      cases hlambda : lambda first with
      | none =>
          obtain ⟨rfl, rfl, -⟩ : position.place = s ∧ T = S ∧ first :: more = rest := by
            simpa [startOf, hlambda] using hstart
          exact h.kind
      | some found =>
          obtain ⟨rfl, rfl, -⟩ : found.1 = s ∧ found.2 = S ∧ more = rest := by
            simpa [startOf, hlambda] using hstart
          exact (h.bound first _ _ hlambda w (le_refl w)).2

/-- The lambda variable of an `any` is bound to an entity that is reached from nowhere. -/
theorem Compiling.enter (h : Compiling context scope position T lambda w session)
    (hkey : Function.Injective context.key) {t : EntityType} (ht : t ∈ context.schema.types) (x : String) :
    context.key session.drawn ∉ w.keys ∧
      Compiling context (scope.withLambda x t.name)
        { position with scope := position.scope.enter (context.key session.drawn) } T
        (Function.update lambda x (some (⟨w.names.next⟩, t)))
        (w.enter position.scope (context.key session.drawn) x t)
        ⟨w.names.bound (position.scope.enter (context.key session.drawn)) x t.name, session.drawn + 1⟩ := by
  generalize hdrawn : context.key session.drawn = key
  have hnew : key ∉ w.keys := by
    intro hmem
    obtain ⟨i, hi, heq⟩ := h.keys key hmem
    exact absurd (hkey (hdrawn.trans heq)) hi.ne'
  have hle := w.le_enter hnew position.scope x t
  have hinner : ∀ k ∈ (position.scope.enter key).keys, k ∈ (w.enter position.scope key x t).keys := by
    intro k hk
    exact (List.mem_cons.mp hk).imp id (h.known k)
  refine ⟨hnew, {
    sound := h.sound.enter ht h.known x
    names := rfl
    keys := ?_
    kind := h.sound.kind_le hle h.kind
    type := h.type
    lambdas := ?_
    bound := ?_
    unlinked := ?_
    known := hinner }⟩
  · rintro k (rfl | hk)
    · exact ⟨session.drawn, Nat.lt_succ_self _, hdrawn.symm⟩
    · obtain ⟨i, hi, heq⟩ := h.keys k hk
      exact ⟨i, Nat.lt_succ_of_lt hi, heq⟩
  · intro name
    by_cases hname : name = x
    · subst hname
      simp [FilterScope.withLambda]
    · have hbeq : (name == x) = false := by simpa using hname
      rw [Function.update_of_ne hname, FilterScope.withLambda, List.lookup_cons, hbeq]
      exact h.lambdas name
  · intro name q' t' hlambda w'' hle'
    rw [hle'.resolve _ hinner]
    by_cases hname : name = x
    · subst hname
      obtain ⟨rfl, rfl⟩ : (⟨w.names.next⟩ : Place) = q' ∧ t = t' := by simpa using hlambda
      refine ⟨h.sound.scopes.resolve_bound hnew _ _ _, ?_⟩
      exact (h.sound.enter ht h.known name).kind_le hle' Survey.insert_kind_self
    · rw [Function.update_of_ne hname] at hlambda
      obtain ⟨hresolve, hkind⟩ := h.bound name q' t' hlambda w'' (hle.trans hle')
      refine ⟨?_, hkind⟩
      rw [hle'.resolve _ fun k hk => Or.inr (h.known k hk)] at hresolve
      exact (h.sound.scopes.resolve_bound_other hnew _ _ hname).trans hresolve
  · intro name q' t' hlambda
    by_cases hname : name = x
    · subst hname
      obtain ⟨rfl, rfl⟩ : (⟨w.names.next⟩ : Place) = q' ∧ t = t' := by simpa using hlambda
      exact Survey.insert_link_self
    · rw [Function.update_of_ne hname] at hlambda
      have hkind := (h.bound name q' t' hlambda w (le_refl w)).2
      rw [Place.var, hle.link q'.number (h.sound.number_lt hkind)]
      exact h.unlinked name q' t' hlambda

/-- What compiling a filter ends with. -/
structure Compiled (context : FilterContext) (scope : FilterScope) (position : Position) (T : EntityType)
    (lambda : String → Option (Place × EntityType)) (w : Survey) (f : Filter) (c : CompiledFilter)
    (w' : Survey) (after : Session) (vs : List String) : Prop where
  le : w ≤ w'
  compiling : Compiling context scope position T lambda w' after
  renders : Renders context.schema w' position.place T w.names.next lambda f c.clause c.mayBeUnbound vs
  asks : c.forest.Asks context.schema (among f.heads lambda) T
  mentions : ∀ v ∈ vs, ∀ w'', w' ≤ w'' → c.forest.Mentions w''.names position v

theorem Compiled.literal (hc : Compiling context scope position T lambda w session) {f : Filter}
    {clause : Clause} (hrenders : ∀ {base}, Renders context.schema w position.place T base lambda f clause
      false []) : Compiled context scope position T lambda w f { clause } w session [] :=
  ⟨le_refl w, hc, hrenders, trivial, by simp⟩

theorem ends_pair (hs : context.schema.Accepted) {f g h : Filter}
    {combine : CompiledFilter → CompiledFilter → CompiledFilter}
    (hc : Compiling context scope position T lambda w session)
    (hf : ∀ {w session}, Compiling context scope position T lambda w session →
      Ends (f.compile context scope position) session (fun c after => ∃ w' vs,
        Compiled context scope position T lambda w f c w' after vs) fun _ => True)
    (hg : ∀ {w session}, Compiling context scope position T lambda w session →
      Ends (g.compile context scope position) session (fun c after => ∃ w' vs,
        Compiled context scope position T lambda w g c w' after vs) fun _ => True)
    (hheads : h.heads = f.heads ++ g.heads)
    (hforest : ∀ c d, (combine c d).forest = c.forest.merge d.forest)
    (hrenders : ∀ {c d w base vs us},
      Renders context.schema w position.place T base lambda f c.clause c.mayBeUnbound vs →
      Renders context.schema w position.place T base lambda g d.clause d.mayBeUnbound us →
        Renders context.schema w position.place T base lambda h (combine c d).clause
          (combine c d).mayBeUnbound (vs ++ us)) :
    Ends (do
      let c ← f.compile context scope position
      let d ← g.compile context scope position
      return combine c d) session (fun c after => ∃ w' vs,
        Compiled context scope position T lambda w h c w' after vs) fun _ => True := by
  simp only [ends_bind, ends_pure]
  refine (hf hc).imp (fun c after hc₁ => ?_) fun _ => id
  obtain ⟨w₁, vs, hc₁⟩ := hc₁
  refine (hg hc₁.compiling).imp (fun d after' hd => ?_) fun _ => id
  obtain ⟨w₂, us, hd⟩ := hd
  refine ⟨w₂, vs ++ us, hc₁.le.trans hd.le, hd.compiling, ?_, ?_, fun v hv w'' hle => ?_⟩
  · exact hrenders (hc₁.renders.mono hc₁.compiling.sound hd.le) (hd.renders.of_le hc₁.le.next)
  · rw [hforest, hheads]
    refine (hc₁.asks.mono ?_).merge hs hc₁.compiling.declared (hd.asks.mono ?_)
    · exact fun name found => among_mono fun _ => List.mem_append_left _
    · exact fun name found => among_mono fun _ => List.mem_append_right _
  · rw [hforest]
    obtain hv | hv := List.mem_append.mp hv
    · exact .merge_left (hc₁.mentions v hv w'' (hd.le.trans hle))
    · exact .merge_right (hd.mentions v hv w'' hle)

section Any

variable (hs : context.schema.Accepted) (hids : context.schema.OwnIds) (hrules : context.rules = Rule.builtin)

include hs hids hrules

theorem ends_placeJoin {path init us vs : List String} {s l : Place} {S t : EntityType} {last x : String}
    {cursor : Cursor} {hop : Hop} {key : ScopeKey} {name : String} {forest : Forest} {used : List String}
    {w₁ w₂ w₃ : Survey} {session₁ session₃ : Session}
    (hc : Compiling context scope position T lambda w session)
    (hway : cursor.Follows context position T lambda path w session s S init last vs w₁ session₁)
    (ht : t ∈ context.schema.types) (hkey : key ∉ w₁.keys)
    (hw₂ : w₂ = w₁.enter position.scope key x t) (hle : w₂ ≤ w₃)
    (hinner : Compiling context (scope.withLambda x t.name)
      { position with scope := position.scope.enter key } T
        (Function.update lambda x (some (l, t))) w₃ session₃)
    (hused : ∀ name ∈ path.take 1, name ∈ used)
    (hasks : forest.Asks context.schema (Function.update (among used lambda) x (some (l, t))) T)
    (hmentions : ∀ v ∈ us, ∀ w'', w₃ ≤ w'' →
      forest.Mentions w''.names { position with scope := position.scope.enter key } v) :
    Ends (placeJoin context position (joinForest cursor.branches ⟨name, hop, x, key⟩ t.name forest)) session₃
      (fun pattern after => ∃ w₄ B, pattern = ⟨position.place.var, B⟩ ∧
        w₃.Becomes context.schema after.names w₄ ∧ after.drawn = session₃.drawn ∧
        B.Each (Body.laid context.schema w₄.chart
          (elementOutlook position.place (among used lambda) l cursor.place hop)) position.place.var ∧
        B.Narrow ∧ ∀ v ∈ l.var :: (vs ++ us), v ∈ B.targets) fun _ => True := by
  have hle₁₂ : w₁ ≤ w₂ := hw₂ ▸ w₁.le_enter hkey position.scope x t
  have hle₁₃ := hle₁₂.trans hle
  have hT := hc.declared
  have hbinds : w₃.Binds position.scope (among used lambda) := fun name q t h w'' hle'' =>
    hc.bound name q t (among_eq_some.mp h).2 w'' (hway.becomes.le.trans (hle₁₃.trans hle''))
  have hinnerBinds : w₃.Binds (position.scope.enter key)
      (Function.update (among used lambda) x (some (l, t))) := by
    refine hinner.bound.mono fun name found h => ?_
    by_cases hname : name = x
    · subst hname
      simpa using h
    · rw [Function.update_of_ne hname] at h ⊢
      exact (among_eq_some.mp h).2
  have hjoin : (joinForest cursor.branches ⟨name, hop, x, key⟩ t.name forest).Suits context.schema
      (elementOutlook position.place (among used lambda) l cursor.place hop) w₃ position T := by
    refine Forest.suits_join hs hT (o := cursor.place) (O := cursor.owner) (fun last hlast => ?_) ht ?_ rfl
      hbinds hinnerBinds hasks
    · refine hway.stands.suits rfl (fun name r t h => ?_) hle₁₃ hlast
      exact among_mono hused h
    · exact if_pos rfl
  have hkind : w₃.chart.kind position.place.var = some T := hinner.kind
  obtain ⟨w₄, hw₄, hfailure, hlaid⟩ := Forest.place_suits hs hids hinner.sound hkind hjoin
  rw [hinner.names] at hw₄ hfailure hlaid
  have hown : w₄.names.resolve (position.scope.enter key) x = .ok ⟨l, t.name⟩ :=
    (hinner.bound x l t (by simp) w₄ hw₄.le).1
  have hothers : ∀ name, name ≠ x →
      w₄.names.resolve (position.scope.enter key) name = w₄.names.resolve position.scope name := by
    intro name hname
    have hle₂₄ := hle.trans hw₄.le
    have hknown : ∀ k ∈ position.scope.keys, k ∈ w₁.keys := fun k hk => hway.becomes.le.keys (hc.known k hk)
    have hkeys : ∀ k ∈ (position.scope.enter key).keys, k ∈ w₂.keys := by
      rw [hw₂]
      exact fun k hk => (List.mem_cons.mp hk).imp id (hknown k)
    rw [hle₂₄.resolve _ hkeys, hle₂₄.resolve _ fun k hk => hle₁₂.keys (hknown k hk), hw₂]
    exact hway.becomes.sound.scopes.resolve_bound_other hkey _ _ hname
  have hmentioned : ∀ v ∈ l.var :: (vs ++ us),
      (joinForest cursor.branches ⟨name, hop, x, key⟩ t.name forest).Mentions w₄.names position v := by
    have hpath : ∀ last v, last.Mentions w₄.names ⟨cursor.place, position.scope⟩ v →
        (Forest.ofPath cursor.branches last).Mentions w₄.names position v :=
      fun last v => hway.stands.mentions (hle₁₃.trans hw₄.le)
    intro v hv
    obtain rfl | hv := List.mem_cons.mp hv
    · exact .merge_left (hpath _ _
        (@Forest.Mentions.element _ ⟨name, hop, x, key⟩ _ _ ⟨cursor.place, position.scope⟩ ⟨l, t.name⟩ hown))
    · obtain hv | hv := List.mem_append.mp hv
      · exact .merge_left (hway.passes v hv w₄ _ (hle₁₃.trans hw₄.le))
      · exact Forest.mentions_join hs hT hpath hown hothers hasks (hmentions v hv w₄ hw₄.le)
  rw [ends_placeJoin_iff hrules, hfailure]
  refine ⟨w₄, _, rfl, hw₄, rfl, hlaid, ?_, fun v hv => ?_⟩
  · exact Forest.place_narrow (Forest.single_join (fun _ => hway.stands.single) (hasks.single hs hT) _) _ _
  · refine Forest.place_targets hfailure ?_ (hmentioned v hv)
    rw [hw₄.names_eq]
    exact .refl _

variable (hkey : Function.Injective context.key)

include hkey

theorem ends_compile (f : Filter) (hc : Compiling context scope position T lambda w session) :
    Ends (f.compile context scope position) session (fun c after => ∃ w' vs,
      Compiled context scope position T lambda w f c w' after vs) fun _ => True := by
  induction f generalizing scope position lambda w session with
  | string text => exact ⟨w, [], .literal hc .string⟩
  | number v =>
      unfold compile
      split
      · next text htext => exact ⟨w, [], .literal hc (.number htext)⟩
      · trivial
  | boolean b => exact ⟨w, [], .literal hc .boolean⟩
  | null =>
      obtain ⟨w', hw', hlink, hkind⟩ := hc.sound.fresh
      rw [hc.names] at hw' hlink hkind
      refine ⟨w', [], hw'.le, hc.becomes hw' rfl, .null (k := session.names.next) ?_ hlink hkind, trivial,
        by simp⟩
      rw [hw'.names_eq]
      exact Nat.lt_succ_self _
  | and f g ihf ihg =>
      exact ends_pair hs hc ihf ihg rfl (fun _ _ => rfl) .and
  | or f g ihf ihg =>
      exact ends_pair hs hc ihf ihg rfl (fun _ _ => rfl) .or
  | eq f g ihf ihg =>
      exact ends_pair hs hc ihf ihg rfl (fun _ _ => rfl) .eq
  | parentheses f ih =>
      refine (ih hc).imp (fun c after h => ?_) fun _ => id
      obtain ⟨w', vs, h⟩ := h
      exact ⟨w', vs, h.le, h.compiling, .parentheses h.renders, h.asks, h.mentions⟩
  | property path =>
      refine (ends_compileProperty hs hids hc).imp (fun c after h => ?_) fun _ => id
      obtain ⟨w', s, S, init, last, o, O, vs, us, b, b', v, hw', hdrawn, hstart, hwalk, hlast, hclause, hflag,
        hasks, hmentions⟩ := h
      refine ⟨w', vs ++ us, hw'.le, hc.becomes hw' hdrawn, ?_, hasks, hmentions⟩
      rw [hclause, hflag]
      exact .property hstart ((hc.becomes hw' hdrawn).startOf_kind hstart) hwalk hlast
  | any path x f ih =>
      unfold compile
      rw [ends_bind]
      refine (ends_compileCollection hs hc).imp (fun result session₁ h => ?_) fun _ => id
      obtain ⟨cursor, p, hop, t⟩ := result
      obtain ⟨s, S, init, last, vs, w₁, hway, hp, he, -, hhop, ht⟩ := h
      simp only at hway hp he hhop ht ⊢
      have hc₁ := hc.becomes hway.becomes hway.drawn
      obtain ⟨t', htypes, ht'⟩ := hs.targetType (hway.becomes.sound.declared hway.stands.kind)
        (EntityType.mem_of_property? hp).1 he
      obtain rfl : t = t' := Except.ok.inj (ht.symm.trans ht')
      obtain ⟨hnew, hc₂⟩ := hc₁.enter hkey htypes x
      rw [ends_bind, ends_openScope_iff, ← hc₁.names, hc₁.sound.scopes.define hnew]
      simp only [ends_bind]
      refine (ih hc₂).imp (fun c session₃ h => ?_) fun _ => id
      obtain ⟨w₃, us, h₃⟩ := h
      have hasks : c.forest.Asks context.schema
          (Function.update (among (heads (.any path x f)) lambda) x (some (⟨w₁.names.next⟩, t))) T := by
        refine h₃.asks.mono fun name found h => update_among (fun hmem hname => ?_) h
        exact List.mem_append_right _ (by simpa using ⟨hmem, hname⟩)
      refine (ends_placeJoin hs hids hrules hc hway htypes hnew rfl h₃.le h₃.compiling
        (fun name => List.mem_append_left _) hasks h₃.mentions).imp (fun pattern after h => ?_) fun _ => id
      obtain ⟨w₄, B, rfl, hw₄, hdrawn, hlaid, hnarrow, htargets⟩ := h
      have hle₁₂ := w₁.le_enter hnew position.scope x t
      have hle₂₄ := h₃.le.trans hw₄.le
      have hle₁₄ := hle₁₂.trans hle₂₄
      have hle := hway.becomes.le.trans hle₁₄
      have hc₄ : Compiling context scope position T lambda w₄ after := by
        refine hc.later hle hw₄.sound hw₄.names_eq fun k hk => ?_
        rw [hdrawn]
        exact h₃.compiling.keys k (hw₄.keys ▸ hk)
      have hllink : w₄.chart.link (variableName w₁.names.next) = none :=
        (hle₂₄.link _ (Nat.lt_succ_self _)).trans Survey.insert_link_self
      have hlkind : w₄.chart.kind (variableName w₁.names.next) = some t :=
        (hle₂₄.kind _ (Nat.lt_succ_self _)).trans Survey.insert_kind_self
      exact ⟨w₄, [], hle, hc₄, .any (l := ⟨w₁.names.next⟩) hway.start (hc₄.startOf_kind hway.start)
        (hway.walk.mono hle₁₄) hp he hhop ht (hway.becomes.sound.number_lt hway.stands.kind)
        hway.becomes.le.next hllink hlkind (h₃.renders.mono h₃.compiling.sound hw₄.le) hlaid hnarrow htargets,
        (hway.stands.asks (show Forest.nil.Follows context.schema cursor.owner from trivial)).mono
        fun name found =>
          among_mono fun _ => List.mem_append_left _, by simp⟩

end Any

end Compile

end EntityGraph.Filter
