import EntityGraph.Proofs.Filter.Sight
import EntityGraph.Proofs.Pattern.Together
import EntityGraph.Proofs.Sparql.Existentials
import Mathlib.Data.List.Forall2

/-!
# The names of a condition

Every `any` of a filter binds its lambda variable to an entity of its own, in a scope of its own, and is
written as one `EXISTS`; every `null` is written as a variable of its own. All other variables are in the
trees of the entities that can be seen from where they are written: the filtered entity, and those of the
lambda variables in scope.

The invariant `Isolated` says what compiling a filter adds to the names, and which variables the condition
has. Its step for two operands is `Isolated.both`; an `any` adds the entity of its lambda variable to what
can be seen from its predicate.
-/
namespace EntityGraph

open Sparql

namespace Filter

def anys : Filter → Nat
  | and left right => left.anys + right.anys
  | or left right => left.anys + right.anys
  | eq left right => left.anys + right.anys
  | parentheses inner => inner.anys
  | any _ _ predicate => predicate.anys + 1
  | _ => 0

/-- The scopes that the `any` of a filter open, in the order in which they are written, with the lambda
variables that they bind. -/
def binders (key : Nat → ScopeKey) : Filter → Scope → Nat → List (Scope × String)
  | and left right, scope, drawn =>
    left.binders key scope drawn ++ right.binders key scope (drawn + left.anys)
  | or left right, scope, drawn =>
    left.binders key scope drawn ++ right.binders key scope (drawn + left.anys)
  | eq left right, scope, drawn =>
    left.binders key scope drawn ++ right.binders key scope (drawn + left.anys)
  | parentheses inner, scope, drawn => inner.binders key scope drawn
  | any _ lambda predicate, scope, drawn =>
    (scope.enter (key drawn), lambda) :: predicate.binders key (scope.enter (key drawn)) (drawn + 1)
  | _, _, _ => []

def nullCount : Filter → Nat
  | null => 1
  | and left right => left.nullCount + right.nullCount
  | or left right => left.nullCount + right.nullCount
  | eq left right => left.nullCount + right.nullCount
  | parentheses inner => inner.nullCount
  | any _ _ predicate => predicate.nullCount
  | _ => 0

/-- What stands for `null` in the condition that a filter is compiled to. -/
def nulls : Filter → Clause → List String
  | null, .var name => [name]
  | and left right, .and l r => left.nulls l ++ right.nulls r
  | or left right, .or l r => left.nulls l ++ right.nulls r
  | eq left right, .equal l r => left.nulls l ++ right.nulls r
  | eq left right, .or (.equal l r) _ => left.nulls l ++ right.nulls r
  | parentheses inner, clause => inner.nulls clause
  | any _ _ predicate, .existing _ condition => predicate.nulls condition
  | _, _ => []

theorem nulls_nullSafeEqual (left right : Filter) (l r : Clause) (mayBeUnbound : Bool) :
    (eq left right).nulls (.nullSafeEqual l r mayBeUnbound) = left.nulls l ++ right.nulls r := by
  unfold Clause.nullSafeEqual
  split
  · rfl
  · rfl

end Filter

theorem Pattern.vars_spans {names : Naming} {tops : Set Place} {p : Pattern}
    (h : p.body.Each (Body.naming (names.Spans tops)) p.root) :
    ∀ v ∈ p.group.vars, ∃ l ∈ tops, names.InTree l v := by
  intro v hv
  obtain ⟨hword, hvariable⟩ := List.mem_filter.mp hv
  refine (words_spans h v hword).resolve_left fun hnot => ?_
  simp [hnot] at hvariable

def Naming.placesOf (added : List ((Scope × String) × Namespace)) : Set Place :=
  {l | ∃ entry ∈ added, entry.2.place = l}

/-- The entity of a lambda variable belongs to an `EXISTS`: it stands in a triple there, and no variable of
its tree stands outside. -/
def Naming.Encloses (names : Naming) (entry : (Scope × String) × Namespace) (x : Existential) : Prop :=
  (∃ t ∈ x.group.triples, t.HasEnd entry.2.place.var) ∧ ∀ v ∈ x.outside, ¬ names.InTree entry.2.place v

namespace Filter

variable {context : FilterContext} {scope : FilterScope} {position : Position} {session after : Session}
  {path : List String} {visible roots : Set Place} {rest : Set Nat}

/-- What compiling a filter has added: the definitions `added` of its lambda variables and the numbers
`loose` of its nulls; and what its condition is made of, if the entities `visible` can be seen. -/
structure Isolated (context : FilterContext) (f : Filter) (scope : Scope) (visible roots : Set Place)
    (rest : Set Nat) (session : Session) (compiled : CompiledFilter) (after : Session)
    (added : List ((Scope × String) × Namespace)) (loose : List Nat) : Prop where
  drawn : after.drawn = session.drawn + f.anys
  namespaces : after.names.namespaces = session.names.namespaces ++ added
  binders : added.map Prod.fst = f.binders context.key scope session.drawn
  count : loose.length = f.nullCount
  nulls : f.nulls compiled.clause = loose.map variableName
  grows : session.names.Grows after.names
  next : session.names.next ≤ after.names.next
  parted : after.names.Parted (roots ∪ Naming.placesOf added) (rest ∪ {k | k ∈ loose})
  places : ∀ l ∈ Naming.placesOf added, session.names.next ≤ l.number
  distinct : (added.map (·.2.place)).Nodup
  fresh : ∀ k ∈ loose, session.names.next ≤ k
  nodup : loose.Nodup
  declared : compiled.forest.Every (Branch.Declared context.schema)
  pruned : compiled.forest.Pruned
  vars : ∀ v ∈ compiled.clause.vars, v ∈ loose.map variableName ∨
    ∃ l ∈ visible ∪ Naming.placesOf added, after.names.InTree l v
  groups : ∀ outside, ∀ x ∈ compiled.clause.existentials outside, ∀ v ∈ x.group.vars,
    ∃ l ∈ visible ∪ Naming.placesOf added, after.names.InTree l v
  enclosed : ∀ {names roots' rest' outside}, after.names.Grows names → names.Parted roots' rest' →
    visible ∪ Naming.placesOf added ⊆ roots' → {k | k ∈ loose} ⊆ rest' →
    (∀ l ∈ Naming.placesOf added, ∀ v ∈ outside, ¬ names.InTree l v) →
    List.Forall₂ names.Encloses added (compiled.clause.existentials outside)

section Conditions

variable {f left right : Filter} {inner : Scope} {compiled l r : CompiledFilter} {between : Session}
  {added added' : List ((Scope × String) × Namespace)} {loose loose' : List Nat}

theorem placesOf_append : Naming.placesOf
    (added ++ added') = Naming.placesOf added ∪ Naming.placesOf added' := by
  ext l
  simp only [Naming.placesOf, List.mem_append, Set.mem_union, Set.mem_ofPred_eq]
  grind

theorem Isolated.exists_null
    (h : Isolated context f inner visible roots rest session compiled after added loose)
    {v : String} (hv : v ∈ f.nulls compiled.clause) : ∃ k ∈ loose, v = variableName k := by
  rw [h.nulls] at hv
  obtain ⟨k, hk, rfl⟩ := List.mem_map.mp hv
  exact ⟨k, hk, rfl⟩

theorem Isolated.avoids (h : Isolated context f inner visible roots rest session compiled after added loose)
    {names : Naming} {roots' : Set Place} {rest' : Set Nat} (hgrows : after.names.Grows names)
    (hparted : names.Parted roots' rest') (hroots : visible ∪ Naming.placesOf added ⊆ roots')
    (hrest : {k | k ∈ loose} ⊆ rest') {l : Place} (hl : l ∈ roots')
    (hne : l ∉ visible ∪ Naming.placesOf added) : ∀ v ∈ compiled.clause.vars, ¬ names.InTree l v := by
  intro v hv
  obtain hnull | ⟨l', hl', htree⟩ := h.vars v hv
  · obtain ⟨k, hk, rfl⟩ := List.mem_map.mp hnull
    exact hparted.not_inTree hl (hrest hk)
  · refine hparted.disjoint (hroots hl') hl (fun heq => hne (heq ▸ hl')) (hgrows.inTree htree)

theorem Isolated.plain (hbelow : session.Below roots rest after) (hanys : f.anys = 0)
    (hcount : f.nullCount = 0)
    (hbinders : f.binders context.key inner session.drawn = []) (hnulls : f.nulls compiled.clause = [])
    (hexistentials : ∀ outside, compiled.clause.existentials outside = [])
    (hvars : ∀ v ∈ compiled.clause.vars, ∃ l ∈ visible, after.names.InTree l v)
    (hdeclared : compiled.forest.Every (Branch.Declared context.schema)) (hpruned : compiled.forest.Pruned) :
    Isolated context f inner visible roots rest session compiled after [] [] where
  drawn := by rw [hanys, hbelow.drawn, Nat.add_zero]
  namespaces := by rw [hbelow.namespaces, List.append_nil]
  binders := hbinders.symm
  count := hcount.symm
  nulls := hnulls
  grows := hbelow.grows
  next := hbelow.next
  parted := by simpa [Naming.placesOf] using hbelow.parted
  places := by simp [Naming.placesOf]
  distinct := List.nodup_nil
  fresh := by simp
  nodup := List.nodup_nil
  declared := hdeclared
  pruned := hpruned
  vars v hv := Or.inr ((hvars v hv).imp fun l hl => ⟨Or.inl hl.1, hl.2⟩)
  groups outside x hx := by simp [hexistentials] at hx
  enclosed _ _ _ _ _ := by
    rw [hexistentials]
    exact .nil

/-- The filter has two operands, and the condition is made of theirs. -/
structure Joined (f left right : Filter) (result :
    CompiledFilter → CompiledFilter → CompiledFilter) : Prop where
  anys : f.anys = left.anys + right.anys
  binders : ∀ key scope drawn, f.binders key scope drawn =
    left.binders key scope drawn ++ right.binders key scope (drawn + left.anys)
  nullCount : f.nullCount = left.nullCount + right.nullCount
  forest : ∀ l r, (result l r).forest = l.forest.merge r.forest
  nulls : ∀ l r, f.nulls (result l r).clause = left.nulls l.clause ++ right.nulls r.clause
  vars : ∀ l r v, v ∈ (result l r).clause.vars ↔ v ∈ l.clause.vars ++ r.clause.vars
  existentials : ∀ l r outside, (result l r).clause.existentials outside =
    l.clause.existentials (outside ++ r.clause.vars) ++ r.clause.existentials (outside ++ l.clause.vars)

/-- Two operands, the second one with the names that the first one leaves. -/
theorem Isolated.both {result : CompiledFilter → CompiledFilter → CompiledFilter}
    (hj : Joined f left right result) (hvisible : visible ⊆ roots) (hparted : session.names.Parted roots rest)
    (hl : Isolated context left inner visible roots rest session l between added loose)
    (hr : Isolated context right inner visible (roots ∪ Naming.placesOf added)
      (rest ∪ {k | k ∈ loose}) between r after added' loose') :
    Isolated context f inner visible roots rest session (result l r) after (added ++ added')
      (loose ++ loose') where
  drawn := by rw [hr.drawn, hl.drawn, hj.anys, Nat.add_assoc]
  namespaces := by rw [hr.namespaces, hl.namespaces, List.append_assoc]
  binders := by rw [List.map_append, hl.binders, hr.binders, hj.binders, hl.drawn]
  count := by rw [List.length_append, hl.count, hr.count, hj.nullCount]
  nulls := by rw [hj.nulls, hl.nulls, hr.nulls, List.map_append]
  grows := hl.grows.trans hr.grows
  next := hl.next.trans hr.next
  parted := by
    have hloose : rest ∪ {k | k ∈ loose ++ loose'} = rest ∪ {k | k ∈ loose} ∪ {k | k ∈ loose'} := by
      ext k
      simp [or_assoc]
    rw [placesOf_append, ← Set.union_assoc, hloose]
    exact hr.parted
  places := by
    rw [placesOf_append]
    rintro q (hq | hq)
    · exact hl.places q hq
    · exact hl.next.trans (hr.places q hq)
  distinct := by
    rw [List.map_append]
    refine List.nodup_append.mpr ⟨hl.distinct, hr.distinct, ?_⟩
    intro q hq q' hq' heq
    obtain ⟨entry, hentry, rfl⟩ := List.mem_map.mp hq
    obtain ⟨entry', hentry', rfl⟩ := List.mem_map.mp hq'
    have hlt := hl.parted.root_lt (Or.inr ⟨entry, hentry, rfl⟩)
    have hge := hr.places _ ⟨entry', hentry', rfl⟩
    rw [heq] at hlt
    exact absurd hlt (Nat.not_lt.mpr hge)
  fresh k hk := by
    obtain hk | hk := List.mem_append.mp hk
    · exact hl.fresh k hk
    · exact hl.next.trans (hr.fresh k hk)
  nodup := by
    refine List.nodup_append.mpr ⟨hl.nodup, hr.nodup, ?_⟩
    rintro k hk k' hk' rfl
    exact absurd (hl.parted.loose_lt (Or.inr hk)) (Nat.not_lt.mpr (hr.fresh k hk'))
  declared := by
    rw [hj.forest]
    exact hl.declared.merge hr.declared
  pruned := by
    rw [hj.forest]
    exact hl.pruned.merge hr.pruned
  vars v hv := by
    rw [List.map_append, placesOf_append]
    obtain hv | hv := List.mem_append.mp ((hj.vars l r v).mp hv)
    · obtain hnull | ⟨q, hq, htree⟩ := hl.vars v hv
      · exact Or.inl (List.mem_append_left _ hnull)
      · exact Or.inr ⟨q, hq.imp_right Or.inl, hr.grows.inTree htree⟩
    · obtain hnull | ⟨q, hq, htree⟩ := hr.vars v hv
      · exact Or.inl (List.mem_append_right _ hnull)
      · exact Or.inr ⟨q, hq.imp_right Or.inr, htree⟩
  groups outside x hx v hv := by
    rw [placesOf_append]
    rw [hj.existentials] at hx
    obtain hx | hx := List.mem_append.mp hx
    · obtain ⟨q, hq, htree⟩ := hl.groups _ x hx v hv
      exact ⟨q, hq.imp_right Or.inl, hr.grows.inTree htree⟩
    · obtain ⟨q, hq, htree⟩ := hr.groups _ x hx v hv
      exact ⟨q, hq.imp_right Or.inr, htree⟩
  enclosed {names roots' rest' outside} hgrows hparted' hroots hrest houtside := by
    rw [placesOf_append] at hroots houtside
    rw [hj.existentials]
    have hbefore := hr.grows.trans hgrows
    have hlroots : visible ∪ Naming.placesOf added ⊆ roots' := fun q hq => hroots (hq.imp_right Or.inl)
    have hrroots : visible ∪ Naming.placesOf added' ⊆ roots' := fun q hq => hroots (hq.imp_right Or.inr)
    have hlrest : {k | k ∈ loose} ⊆ rest' := fun k hk => hrest (List.mem_append_left _ hk)
    have hrrest : {k | k ∈ loose'} ⊆ rest' := fun k hk => hrest (List.mem_append_right _ hk)
    have hbelow : ∀ q ∈ visible, q.number < session.names.next := fun q hq => hparted.root_lt (hvisible hq)
    -- what either operand has bound cannot be seen from the other one
    refine List.rel_append (hl.enclosed hbefore hparted' hlroots hlrest ?_)
      (hr.enclosed hgrows hparted' hrroots hrrest ?_)
    · intro q hq v hv
      obtain hv | hv := List.mem_append.mp hv
      · exact houtside q (Or.inl hq) v hv
      · refine hr.avoids hgrows hparted' hrroots hrrest (hlroots (Or.inr hq)) ?_ v hv
        have hlt := hl.parted.root_lt (Or.inr hq)
        rintro (hseen | hbound)
        · exact absurd (hbelow q hseen) (Nat.not_lt.mpr (hl.places q hq))
        · exact absurd hlt (Nat.not_lt.mpr (hr.places q hbound))
    · intro q hq v hv
      obtain hv | hv := List.mem_append.mp hv
      · exact houtside q (Or.inr hq) v hv
      · refine hl.avoids hbefore hparted' hlroots hlrest (hrroots (Or.inr hq)) ?_ v hv
        have hge := hr.places q hq
        rintro (hseen | hbound)
        · exact absurd ((hbelow q hseen).trans_le hl.next) (Nat.not_lt.mpr hge)
        · exact absurd (hl.parted.root_lt (Or.inr hbound)) (Nat.not_lt.mpr hge)

theorem Isolated.quantified {name elementType : String} {predicate : Filter} {group : Group} {forest : Forest}
    {body : CompiledFilter} {later : Session}
    (h : Isolated context predicate (inner.enter (context.key between.drawn))
      (insert ⟨between.names.next⟩ visible) (insert ⟨between.names.next⟩ roots) rest
      ⟨between.names.bound (inner.enter (context.key between.drawn)) name elementType,
        between.drawn + 1⟩ body later
      added loose)
    (hvisible : visible ⊆ roots) (hparted : session.names.Parted roots rest)
    (hbelow : session.Below roots rest between)
    (hafter : later.Below (insert ⟨between.names.next⟩ roots ∪ Naming.placesOf added)
      (rest ∪ {k | k ∈ loose}) after)
    (hgroup : ∀ v ∈ group.vars, ∃ q ∈ insert ⟨between.names.next⟩ visible, after.names.InTree q v)
    (hmention : ∃ t ∈ group.triples, t.HasEnd (Place.var ⟨between.names.next⟩))
    (hdeclared : forest.Every (Branch.Declared context.schema)) (hpruned : forest.Pruned) :
    Isolated context (any path name predicate) inner visible roots rest session
      { clause := .existing group body.clause, forest } after
      (((inner.enter (context.key between.drawn), name), ⟨⟨between.names.next⟩, elementType⟩) ::
        added) loose := by
  have hplaces : Naming.placesOf (((inner.enter (context.key between.drawn), name),
      (⟨⟨between.names.next⟩, elementType⟩ : Namespace)) :: added) =
      insert ⟨between.names.next⟩ (Naming.placesOf added) := by
    ext q
    simp only [Naming.placesOf, List.mem_cons, Set.mem_ofPred_eq, Set.mem_insert_iff]
    grind
  have hseen : ∀ tops : Set Place, tops ∪ insert (⟨between.names.next⟩ : Place) (Naming.placesOf added) =
      insert ⟨between.names.next⟩ tops ∪ Naming.placesOf added := by
    intro tops
    rw [Set.union_insert, Set.insert_union]
  have hbound : between.names.Grows (between.names.bound (inner.enter (context.key between.drawn)) name
      elementType) := ⟨id, id⟩
  have hlater : ∀ q ∈ Naming.placesOf added, between.names.next < q.number := h.places
  have htrees : ∀ {v}, (∃ q ∈ insert ⟨between.names.next⟩ visible ∪ Naming.placesOf added,
      later.names.InTree q v) → ∃ q ∈ insert ⟨between.names.next⟩ visible ∪ Naming.placesOf added,
      after.names.InTree q v :=
    fun htree => htree.imp fun q hq => ⟨hq.1, hafter.grows.inTree hq.2⟩
  exact {
    drawn := by
      have hdrawn := h.drawn
      simp only at hdrawn
      rw [hafter.drawn, hdrawn, hbelow.drawn, anys]
      omega
    namespaces := by
      rw [hafter.namespaces, h.namespaces, Naming.bound, hbelow.namespaces, List.append_assoc]
      rfl
    binders := by
      rw [List.map_cons, h.binders, hbelow.drawn, Filter.binders]
    count := h.count
    nulls := h.nulls
    grows := hbelow.grows.trans (hbound.trans (h.grows.trans hafter.grows))
    next := hbelow.next.trans ((Nat.le_succ _).trans (h.next.trans hafter.next))
    parted := by
      rw [hplaces, hseen]
      exact hafter.parted
    places := by
      rw [hplaces]
      rintro q (rfl | hq)
      · exact hbelow.next
      · exact hbelow.next.trans (hlater q hq).le
    distinct := by
      refine List.nodup_cons.mpr ⟨fun hmem => ?_, h.distinct⟩
      obtain ⟨entry, hentry, heq⟩ := List.mem_map.mp hmem
      have hlt := hlater _ ⟨entry, hentry, rfl⟩
      rw [heq] at hlt
      exact absurd hlt (Nat.lt_irrefl _)
    fresh := fun k hk => hbelow.next.trans ((Nat.le_succ _).trans (h.fresh k hk))
    nodup := h.nodup
    declared := hdeclared
    pruned := hpruned
    vars := by
      rw [hplaces, hseen]
      intro v hv
      obtain hv | hv := List.mem_append.mp hv
      · exact Or.inr ((hgroup v hv).imp fun q hq => ⟨Or.inl hq.1, hq.2⟩)
      · exact (h.vars v hv).imp_right htrees
    groups := by
      rw [hplaces, hseen]
      intro outside x hx v hv
      obtain rfl | hx := List.mem_cons.mp hx
      · exact (hgroup v hv).imp fun q hq => ⟨Or.inl hq.1, hq.2⟩
      · exact htrees (h.groups _ x hx v hv)
    enclosed := by
      intro names roots' rest' outside hgrows hparted' hroots hrest houtside
      rw [hplaces] at hroots houtside
      rw [hseen] at hroots
      refine .cons ⟨hmention, houtside _ (Or.inl rfl)⟩ ?_
      refine h.enclosed (hafter.grows.trans hgrows) hparted' hroots hrest fun q hq v hv => ?_
      obtain hv | hv := List.mem_append.mp hv
      · exact houtside q (Or.inr hq) v hv
      · -- the group is about what can be seen, and `q` is bound further inside
        obtain ⟨q', hq', htree⟩ := hgroup v hv
        refine hparted'.disjoint (hroots (Or.inl hq')) (hroots (Or.inr hq)) ?_ (hgrows.inTree htree)
        rintro rfl
        obtain rfl | hq' := hq'
        · exact absurd (hlater _ hq) (Nat.lt_irrefl _)
        · have hlt := (hparted.root_lt (hvisible hq')).trans_le hbelow.next
          exact absurd (hlater _ hq) (Nat.not_lt.mpr hlt.le) }

end Conditions

section Compiling

variable {T : EntityType} {lambda : String → Option EntityType}

theorem Sees.grows (h : Sees visible position session.names)
    (hready : Ready context scope position T lambda session)
    (hgrows : session.Grows context after) : Sees visible position after.names :=
  ⟨h.place, fun hfound => h.lambda ((hgrows.resolve hready.known _).symm.trans hfound)⟩

theorem ends_openScope (hkey : Function.Injective context.key)
    (hready : Ready context scope position T lambda session) (hsees : Sees visible position session.names)
    (name elementType : String) :
    Ends (openScope context position.scope name elementType) session (fun result after =>
      result = (context.key session.drawn, position.scope.enter (context.key session.drawn)) ∧
      after = ⟨session.names.bound (position.scope.enter (context.key session.drawn)) name elementType,
        session.drawn + 1⟩ ∧
      after.names.resolve (position.scope.enter (context.key session.drawn)) name =
        .ok ⟨⟨session.names.next⟩, elementType⟩ ∧
      Sees (insert ⟨session.names.next⟩ visible)
        { position with scope := position.scope.enter (context.key session.drawn) } after.names)
          fun _ => False := by
  have hnew : context.key session.drawn ∉ session.keys context := by
    rintro ⟨i, hi, heq⟩
    exact hi.ne (hkey heq).symm
  rw [ends_openScope_iff, hready.definitions.define hnew]
  have hown := hready.definitions.resolve_bound hnew position.scope name elementType
  refine ⟨rfl, rfl, hown, Or.inr hsees.place, fun {other found} hfound => ?_⟩
  by_cases hname : other = name
  · subst hname
    obtain rfl := Except.ok.inj (hown.symm.trans hfound)
    exact Or.inl rfl
  · simp only at hfound
    rw [hready.definitions.resolve_bound_other hnew _ _ hname,
      Naming.resolve_bound_of_known hnew hready.known] at hfound
    exact Or.inr (hsees.lambda hfound)

theorem within_join {names : Naming} {way : List Branch} {a : AnyBranch} {elementType : String}
    {predicate : Forest} {lambda' : String → Option EntityType} {tops : Set Place}
    (hway : (Forest.ofPath way .nil).Made (Branch.IsTop lambda))
    (hmade : predicate.Made (Branch.IsTop lambda')) (houter : Sees tops position names)
    (hinner : Sees tops { position with scope := position.scope.enter a.key } names) :
    (joinForest way a elementType predicate).Within names tops position.scope := by
  have htop : ∀ {lambda : String → Option EntityType} a, ¬ Branch.IsTop lambda (.any a) := by
    rintro lambda a (⟨b, hb⟩ | ⟨name, t, hb, -⟩)
    · simp at hb
    · simp at hb
  refine Forest.Within.merge
    (hway.within_ofPath htop (fun _ _ => houter.lambda) ⟨fun _ => hinner.lambda, ?_, trivial⟩) ?_
  · exact (hmade.filterTop _).within (fun a ha => htop a ha.1) fun _ _ _ _ => hinner.lambda
  · exact (hmade.filterTop _).within (fun a ha => htop a ha.1) fun _ _ _ _ => houter.lambda

theorem mentions_join {names : Naming} {way : List Branch} {a : AnyBranch} {elementType : String}
    {predicate : Forest} (q : Place) {l : Place}
    (hway : ∀ {last v}, last.Mentions names ⟨q, position.scope⟩ v →
      (Forest.ofPath way last).Mentions names position v)
    (hfound : names.resolve (position.scope.enter a.key) a.lambda = .ok ⟨l, elementType⟩) :
    (joinForest way a elementType predicate).Mentions names position l.var :=
  .merge_left (hway (@Forest.Mentions.element names a _ .nil ⟨q, position.scope⟩ ⟨l, elementType⟩ hfound))

theorem Forest.vars_place {schema : Schema} (hs : schema.Accepted) {forest : Forest} {names : Naming}
    {tops : Set Place} (hwithin : forest.Within names tops position.scope)
    (hdeclared : forest.Every (Branch.Declared schema)) (hplace : position.place ∈ tops) :
    ∀ v ∈ (Pattern.mk position.place.var (forest.place Rule.builtin position names).body).group.vars,
      ∃ q ∈ tops, (forest.place Rule.builtin position names).names.InTree q v :=
  Pattern.vars_spans (Forest.place_spans hs (.refl _) hwithin hdeclared hplace .self)

/-- An `any` whose pattern has been placed after its predicate was compiled. -/
theorem Isolated.placed {f : Filter} {name elementType : String} {join forest : Forest}
    {body : CompiledFilter}
    {between later : Session} {added : List ((Scope × String) × Namespace)} {loose : List Nat}
    (hs : context.schema.Accepted)
    (h : Isolated context f (position.scope.enter (context.key between.drawn))
      (insert ⟨between.names.next⟩ visible)
      (insert ⟨between.names.next⟩ roots) rest
      ⟨between.names.bound (position.scope.enter (context.key between.drawn))
        name elementType, between.drawn + 1⟩ body later added loose)
    (hvisible : visible ⊆ roots) (hparted : session.names.Parted roots rest)
    (hbelow : session.Below roots rest between) (hplace : position.place ∈ visible)
    (hfailure : (join.place Rule.builtin position later.names).failure = none)
    (hwithin : join.Within later.names (insert ⟨between.names.next⟩ visible) position.scope)
    (hjoin : join.Every (Branch.Declared context.schema))
    (hmention : join.Mentions (join.place Rule.builtin position later.names).names position
      (Place.var ⟨between.names.next⟩))
    (hdeclared : forest.Every (Branch.Declared context.schema)) (hpruned : forest.Pruned) :
    Isolated context (any path name f) position.scope visible roots rest session
      { clause := .existing (Pattern.mk position.place.var
          (join.place Rule.builtin position later.names).body).group body.clause, forest }
      { later with names := (join.place Rule.builtin position later.names).names }
      (((position.scope.enter (context.key between.drawn), name),
        ⟨⟨between.names.next⟩, elementType⟩) :: added)
      loose := by
  obtain ⟨hafter, hnext⟩ := h.parted.place join (h.parted.root_lt (Or.inl (Or.inr (hvisible hplace))))
  have hkeeps := @Forest.place_keeps join position later.names
  refine h.quantified hvisible hparted hbelow ⟨rfl, hkeeps.namespaces, hkeeps.grows, hnext, hafter⟩
    (Forest.vars_place hs hwithin hjoin (Or.inr hplace)) ?_ hdeclared hpruned
  exact Pattern.exists_triple (Forest.place_targets hfailure (.refl _) hmention)

theorem joined_and (left right : Filter) : Joined (.and left right) left right
    fun l r => { clause := .and l.clause r.clause, forest := l.forest.merge r.forest } :=
  ⟨rfl, fun _ _ _ => rfl, rfl, fun _ _ => rfl, fun _ _ => rfl, fun _ _ _ => Iff.rfl, fun _ _ _ => rfl⟩

theorem joined_or (left right : Filter) : Joined (.or left right) left right
    fun l r => { clause := .or l.clause r.clause, forest := l.forest.merge r.forest } :=
  ⟨rfl, fun _ _ _ => rfl, rfl, fun _ _ => rfl, fun _ _ => rfl, fun _ _ _ => Iff.rfl, fun _ _ _ => rfl⟩

theorem joined_eq (left right : Filter) : Joined (.eq left right) left right
    fun l r => {
      clause := .nullSafeEqual l.clause r.clause (l.mayBeUnbound || r.mayBeUnbound)
      forest := l.forest.merge r.forest } :=
  ⟨rfl, fun _ _ _ => rfl, rfl, fun _ _ => rfl, fun _ _ => nulls_nullSafeEqual left right _ _ _,
    fun _ _ _ => Clause.mem_vars_nullSafeEqual, fun _ _ _ => Clause.existentials_nullSafeEqual⟩

def Isolates (context : FilterContext) (f : Filter) (scope : Scope) (visible roots : Set Place)
    (rest : Set Nat) (session : Session) (x : FilterM CompiledFilter) : Prop :=
  Ends x session (fun compiled after => ∃ added loose,
    Isolated context f scope visible roots rest session compiled after added loose) fun _ => True

theorem Isolates.both {f left right : Filter} {inner : Scope}
    {result : CompiledFilter → CompiledFilter → CompiledFilter} (hj : Joined f left right result)
    (hvisible : visible ⊆ roots) (hparted : session.names.Parted roots rest) {x y : FilterM CompiledFilter}
    {formed : Prop} (hx : Isolates context left inner visible roots rest session x)
    (hgrows : Decides context lambda session x formed)
    (hy : ∀ between roots rest, session.Grows context between → visible ⊆ roots →
      between.names.Parted roots rest → Isolates context right inner visible roots rest between y) :
    Isolates context f inner visible roots rest session (do return result (← x) (← y)) := by
  unfold Isolates
  rw [ends_bind]
  refine (hgrows.and hx).imp (fun l between hl => ?_) fun _ _ => trivial
  obtain ⟨⟨hgrows, -⟩, added, loose, hl⟩ := hl
  rw [ends_bind]
  refine (hy between _ _ hgrows (hvisible.trans Set.subset_union_left) hl.parted).imp
    (fun r after hr => ?_) fun _ => id
  obtain ⟨added', loose', hr⟩ := hr
  exact ⟨_, _, hl.both hj hvisible hparted hr⟩

theorem ends_placeJoin_isolated (hs : context.schema.Accepted) (hrules : context.rules = Rule.builtin)
    {predicate : Filter} {name : String} {cursor : Cursor} {p : Property} {hop : Hop} {t : EntityType}
    {body : CompiledFilter} {between later : Session} {added : List ((Scope × String) × Namespace)}
    {loose : List Nat} {join : Forest}
    (hjoin : join = joinForest cursor.branches ⟨p.name, hop, name, context.key between.drawn⟩
      t.name body.forest)
    (hvisible : visible ⊆ roots) (hparted : session.names.Parted roots rest)
    (hbelow : session.Below roots rest between) (hplace : position.place ∈ visible)
    (hsight : cursor.InSight context visible position between.names)
    (hp : ∃ T ∈ context.schema.types, p ∈ T.properties ∧ context.schema.hop p = .ok hop)
    (h : Isolated context predicate (position.scope.enter (context.key between.drawn))
      (insert ⟨between.names.next⟩ visible) (insert ⟨between.names.next⟩ roots) rest
      ⟨between.names.bound (position.scope.enter (context.key between.drawn)) name t.name,
        between.drawn + 1⟩
      body later added loose)
    (hwithin : join.Within later.names (insert ⟨between.names.next⟩ visible) position.scope)
    (hown : later.names.resolve (position.scope.enter (context.key between.drawn)) name =
      .ok ⟨⟨between.names.next⟩, t.name⟩)
    (hsame : ∀ other, later.names.resolve position.scope other = between.names.resolve position.scope other) :
    Ends (do
        let pattern ← placeJoin context position join
        return {
          clause := .existing pattern.group body.clause
          forest := .ofPath cursor.branches .nil }) later
      (fun compiled after => ∃ added loose,
        Isolated context (any path name predicate) position.scope visible roots rest session
          compiled after added loose) fun _ => True := by
  obtain ⟨T, hT, hp, hhop⟩ := hp
  have hdeclared : join.Every (Branch.Declared context.schema) := by
    subst hjoin
    have hpredicate := h.declared.filterTop
    exact .merge (.ofPath hsight.branches ⟨⟨T, hT, p, hp, hhop⟩, hpredicate _, trivial⟩) (hpredicate _)
  have hkeeps := @Forest.place_keeps join position later.names
  have hbound : between.names.Grows (between.names.bound
    (position.scope.enter (context.key between.drawn)) name t.name) := ⟨id, id⟩
  have hmention : join.Mentions (join.place Rule.builtin position later.names).names position
      (Place.var ⟨between.names.next⟩) := by
    rw [hjoin] at hkeeps ⊢
    refine mentions_join cursor.place ?_ ((hkeeps.resolve _ _).trans hown)
    refine hsight.mentions (hbound.trans (h.grows.trans hkeeps.grows)) fun other => ?_
    rw [hkeeps.resolve, hsame]
  rw [ends_bind, ends_placeJoin_iff hrules]
  split
  · trivial
  · next hfailure =>
      exact ⟨_, _, h.placed hs hvisible hparted hbelow hplace hfailure hwithin hdeclared hmention
        (.ofPath hsight.branches trivial) (.ofPath hsight.complex trivial)⟩

/-- An `any`: its collection, then its scope, then its predicate, then its pattern. -/
theorem Isolates.any (hs : context.schema.Accepted) (hrules : context.rules = Rule.builtin)
    (hkey : Function.Injective context.key) (h : Ready context scope position T lambda session)
    (hsees : Sees visible position session.names) (hvisible : visible ⊆ roots)
    (hparted : session.names.Parted roots rest) {predicate : Filter} (name : String)
    (hpredicate : ∀ {scope position lambda session} {visible roots : Set Place},
      Ready context scope position T lambda session → Sees visible position session.names → visible ⊆ roots →
        session.names.Parted roots rest →
          Isolates context predicate position.scope visible roots rest session
            (predicate.compile context scope position)) :
    Isolates context (any path name predicate) position.scope visible roots rest session
      ((any path name predicate).compile context scope position) := by
  unfold Isolates compile
  rw [ends_bind]
  refine ((ends_collection hs h).and (inSight_compileCollection hs hsees hvisible hparted)).imp
    (fun result between hc => ?_) fun _ _ => trivial
  obtain ⟨cursor, p, hop, t⟩ := result
  obtain ⟨⟨hgrows, hleads, ht, -⟩, hbelow, hsight, hp⟩ := hc
  have hready := h.grows hgrows
  have hhere := hsees.grows h hgrows
  simp only at hleads ht hsight hp ⊢
  rw [ends_bind]
  refine ((ends_scope hkey hready ht name).and (ends_openScope hkey hready hhere name t.name)).imp
    (fun result opened hopen => ?_) fun _ hbad => hbad.1.elim
  obtain ⟨key, inner⟩ := result
  obtain ⟨⟨hopened, -, hinner⟩, hpair, hnames, hown, hinside⟩ := hopen
  obtain ⟨rfl, rfl⟩ := Prod.mk.inj hpair
  simp only at hinner ⊢
  rw [ends_bind]
  have hbound : opened.names.Parted (insert ⟨between.names.next⟩ roots) rest := by
    rw [hnames]
    exact hbelow.parted.bound _ _ _
  refine ((decides_compile hs hrules hkey predicate hinner).and
    (hpredicate hinner hinside (Set.insert_subset_insert hvisible) hbound)).imp (fun body later hbody => ?_)
    fun _ _ => trivial
  obtain ⟨⟨hlater, hmade, -⟩, added, loose, hisolated⟩ := hbody
  have houter := hhere.grows hready (hopened.trans hlater)
  have hwithin : (joinForest cursor.branches ⟨p.name, hop, name, context.key between.drawn⟩ t.name
      body.forest).Within later.names (insert ⟨between.names.next⟩ visible) position.scope :=
    within_join (hleads.made trivial) hmade
      ⟨Or.inr houter.place, fun hfound => Or.inr (houter.lambda hfound)⟩ (hinside.grows hinner hlater)
  subst hnames
  exact ends_placeJoin_isolated hs hrules rfl hvisible hparted hbelow hsees.place hsight hp hisolated hwithin
    ((hlater.resolve hinner.known name).trans hown) ((hopened.trans hlater).resolve hready.known)

/-- Whatever the nesting, repetition and shadowing of its `any`, the names of a condition are isolated. -/
theorem isolates_compile (hs : context.schema.Accepted) (hrules : context.rules = Rule.builtin)
    (hkey : Function.Injective context.key) (f : Filter) (h : Ready context scope position T lambda session)
    (hsees : Sees visible position session.names) (hvisible : visible ⊆ roots)
    (hparted : session.names.Parted roots rest) :
    Isolates context f position.scope visible roots rest session (f.compile context scope position) := by
  induction f generalizing scope position lambda session visible roots rest with
  | string value =>
      exact ⟨[], [], .plain (.refl hparted) rfl rfl rfl rfl (fun _ => rfl) (by simp [Clause.vars])
        trivial trivial⟩
  | boolean value =>
      exact ⟨[], [], .plain (.refl hparted) rfl rfl rfl rfl (fun _ => rfl) (by simp [Clause.vars])
        trivial trivial⟩
  | number value =>
      unfold Isolates compile
      cases numberText value with
      | error e => trivial
      | ok text =>
          exact ⟨[], [], .plain (.refl hparted) rfl rfl rfl rfl (fun _ => rfl) (by simp [Clause.vars])
            trivial trivial⟩
  | null =>
      refine ⟨[], [session.names.next], ⟨rfl, (List.append_nil _).symm, rfl, rfl, rfl, ⟨id, id⟩,
        Nat.le_succ _, ?_,
        by simp [Naming.placesOf], List.nodup_nil, by simp, by simp, trivial, trivial, fun v hv => Or.inl hv,
        by simp [Clause.existentials], fun _ _ _ _ _ => .nil⟩⟩
      have hroots : roots ∪ Naming.placesOf [] = roots := by simp [Naming.placesOf]
      have hrest : rest ∪ {k | k ∈ [session.names.next]} = insert session.names.next rest := by
        ext k
        simp [or_comm]
      rw [hroots, hrest]
      exact hparted.fresh
  | and left right ihl ihr =>
      exact (ihl h hsees hvisible hparted).both (joined_and left right) hvisible hparted
        (decides_compile hs hrules hkey left h)
        fun between roots rest hgrows hvisible hparted =>
          ihr (h.grows hgrows) (hsees.grows h hgrows) hvisible hparted
  | or left right ihl ihr =>
      exact (ihl h hsees hvisible hparted).both (joined_or left right) hvisible hparted
        (decides_compile hs hrules hkey left h)
        fun between roots rest hgrows hvisible hparted =>
          ihr (h.grows hgrows) (hsees.grows h hgrows) hvisible hparted
  | eq left right ihl ihr =>
      exact (ihl h hsees hvisible hparted).both (joined_eq left right) hvisible hparted
        (decides_compile hs hrules hkey left h)
        fun between roots rest hgrows hvisible hparted =>
          ihr (h.grows hgrows) (hsees.grows h hgrows) hvisible hparted
  | parentheses inner ih =>
      refine (ih h hsees hvisible hparted).imp (fun compiled after hinner => ?_) fun _ => id
      obtain ⟨added, loose, hinner⟩ := hinner
      exact ⟨added, loose, { hinner with }⟩
  | property path =>
      refine (inSight_compileProperty hs hsees hvisible hparted).imp
        (fun compiled after hvalue => ?_) fun _ => id
      obtain ⟨var, hvar, l, hl, htree⟩ := hvalue.clause
      refine ⟨[], [], .plain hvalue.below rfl rfl rfl rfl (fun _ => ?_) ?_ hvalue.declared hvalue.pruned⟩
      · rw [hvar]
        rfl
      · rw [hvar]
        intro v hv
        obtain rfl := List.mem_singleton.mp hv
        exact ⟨l, hl, htree⟩
  | any path name predicate ih =>
      apply Isolates.any hs hrules hkey h hsees hvisible hparted name
      intro scope position lambda session visible roots h hsees hvisible hparted
      exact ih h hsees hvisible hparted

end Compiling
end Filter
end EntityGraph
