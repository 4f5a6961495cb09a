import EntityGraph.Proofs.Pattern.Chains
import EntityGraph.Proofs.Placement.Asks

/-!
# Placing what is known

Everything that a forest asks for may have a name already. Then placing the forest cannot fail and makes up no
names. A trail is a path of branches over such names, from an entity or from what a lambda variable stands for
to another entity. Wherever a forest has a trail with a value at its end, it is placed as a chain of edges
that ends at the variable of the value.
-/
namespace EntityGraph

def Branch.target? (names : Naming) (position : Position) : Branch → Option Place
  | .property b =>
    if b.isComplex then names.related? position.place b.name
    else if b.foreignKey.isNone && (names.value? position.place b.name).isSome then some position.place
    else none
  | .lambda name _ => (names.resolve position.scope name).toOption.map (·.place)
  | .any _ => none

def PropertyBranch.relatedEdge (b : PropertyBranch) (related : Place) : Edge :=
  ⟨b.hop, !(b.isSingle && b.isMandatory), related.var⟩

def PropertyBranch.valueEdge (b : PropertyBranch) (var : String) : Edge :=
  ⟨⟨b.hop.predicate, false⟩, !b.isMandatory, var⟩

/-- The branches lead from `q` to `stop`; their edges start at `start`. -/
inductive Naming.Trail (names : Naming) (scope : Scope) :
    Place → List Branch → Place → List Edge → Place → Prop
  | nil {q : Place} : Trail names scope q [] q [] q
  | related {q r stop : Place} {b : PropertyBranch} {path : List Branch} {es : List Edge}
      (hc : b.isComplex = true) (hr : names.related? q b.name = some r)
      (h : Trail names scope r path r es stop) :
      Trail names scope q (.property b :: path) q (b.relatedEdge r :: es) stop
  | lambda {q start stop : Place} {name type : String} {found : Namespace} {path : List Branch}
      {es : List Edge}
      (hr : names.resolve scope name = .ok found) (h : Trail names scope found.place path start es stop) :
      Trail names scope q (.lambda name type :: path) start es stop

section Branches

variable {names names' : Naming} {position : Position} {branch : Branch} {next : Place}

theorem Branch.target?_related {b : PropertyBranch} (hc : b.isComplex = true) :
    (property b).target? names position = names.related? position.place b.name := by
  simp [target?, hc]

theorem Branch.target?_value {b : PropertyBranch} (hc : b.isComplex = false)
    (hk : b.foreignKey = none) {v : String} (hv : names.value? position.place b.name = some v) :
    (property b).target? names position = some position.place := by
  simp [target?, hc, hk, hv]

theorem Branch.target?_lambda {name type : String} {found : Namespace}
    (h : names.resolve position.scope name = .ok found) :
    (lambda name type).target? names position = some found.place := by
  simp [target?, h, Except.toOption]

theorem Naming.Extends.target? (h : Naming.Extends position.scope.keys.length names names')
    (hnext : branch.target? names position = some next) : branch.target? names' position = some next := by
  cases branch with
  | property b =>
      simp only [Branch.target?] at hnext ⊢
      split at hnext
      · next hc =>
          rw [if_pos hc]
          exact h.grows.related hnext
      · next hc =>
          rw [if_neg hc]
          split at hnext
          · next hknown =>
              obtain ⟨hk, hv⟩ := Bool.and_eq_true_iff.mp hknown
              obtain ⟨v, hv⟩ := Option.isSome_iff_exists.mp hv
              simpa [hk, h.grows.value hv] using hnext
          · simp at hnext
  | lambda name type =>
      simp only [Branch.target?, h.resolve (le_refl _)] at hnext ⊢
      exact hnext
  | any a => simp [Branch.target?] at hnext

theorem Naming.Extends.trail {scope : Scope} (h : Naming.Extends scope.keys.length names names')
    {q start stop : Place}
    {path : List Branch} {es : List Edge} (htrail : names.Trail scope q path start es stop) :
    names'.Trail scope q path start es stop := by
  induction htrail with
  | nil => exact .nil
  | related hc hr _ ih => exact .related hc (h.grows.related hr) ih
  | lambda hr _ ih => exact .lambda ((h.resolve (le_refl _) _).trans hr) ih

theorem Branch.placement_of_target? (h : branch.target? names position = some next) :
    ∃ route, branch.placement position names = .ok ⟨route, { position with place := next }, names⟩ := by
  cases branch with
  | property b =>
      simp only [target?] at h
      split at h
      · next hc =>
          rw [placement_related hc, Naming.relatedPlace, h]
          exact ⟨_, rfl⟩
      · next hc =>
          split at h
          · next hknown =>
              obtain ⟨hk, hv⟩ := Bool.and_eq_true_iff.mp hknown
              obtain ⟨v, hv⟩ := Option.isSome_iff_exists.mp hv
              obtain rfl := Option.some.inj h
              rw [placement_value (by simpa using hc) (by simpa using hk), Naming.value, hv]
              exact ⟨_, rfl⟩
          · simp at h
  | lambda name type =>
      cases hfound : names.resolve position.scope name with
      | error e => simp [target?, hfound, Except.toOption] at h
      | ok found =>
          rw [target?_lambda hfound] at h
          obtain rfl := Option.some.inj h
          exact ⟨_, placement_lambda hfound⟩
  | any a => simp [target?] at h

end Branches

namespace Naming.Trail

variable {names : Naming} {scope : Scope} {q start stop : Place} {path : List Branch} {es : List Edge}

theorem concat (h : names.Trail scope q path start es stop) {b : PropertyBranch} {r : Place}
    (hc : b.isComplex = true) (hr : names.related? stop b.name = some r) :
    names.Trail scope q (path ++ [.property b]) start (es ++ [b.relatedEdge r]) r := by
  induction h with
  | nil => exact .related hc hr .nil
  | related hc' hr' _ ih => exact .related hc' hr' (ih hr)
  | lambda hr' _ ih => exact .lambda hr' (ih hr)

end Naming.Trail

namespace Forest

variable {names names' : Naming} {position : Position} {scope : Scope} {f g : Forest} {path : List Branch}

theorem isSome_below?_cons {b : Branch} {below rest : Forest} {branch : Branch} :
    ((cons b below rest).below? (branch :: path)).isSome =
      if b = branch then (below.below? path).isSome else (rest.below? (branch :: path)).isSome := by
  rw [below?]
  split <;> rfl

theorem isSome_below?_update {branch : Branch} {there : Forest → Forest} (h : (f.below? path).isSome)
    (hthere : ∀ {below path}, (below.below? path).isSome → ((there below).below? path).isSome) :
    ((f.update branch there).below? path).isSome := by
  cases path with
  | nil => simp [below?]
  | cons first path =>
      induction f with
      | nil => simp [below?] at h
      | cons b below rest _ ih =>
          rw [isSome_below?_cons] at h
          unfold update
          split
          · rw [isSome_below?_cons]
            split
            · next hfirst =>
                rw [if_pos hfirst] at h
                exact hthere h
            · next hfirst =>
                rw [if_neg hfirst] at h
                exact h
          · rw [isSome_below?_cons]
            split
            · next hfirst =>
                rw [if_pos hfirst] at h
                exact h
            · next hfirst =>
                rw [if_neg hfirst] at h
                exact ih h

theorem isSome_below?_update_self (f : Forest) {branch : Branch} {there : Forest → Forest}
    (h : ∀ below, ((there below).below? path).isSome) :
    ((f.update branch there).below? (branch :: path)).isSome := by
  induction f with
  | nil =>
      rw [update, isSome_below?_cons, if_pos rfl]
      exact h nil
  | cons b below rest _ ih =>
      unfold update
      split
      · next heq =>
          rw [isSome_below?_cons, if_pos heq]
          exact h below
      · next hne =>
          rw [isSome_below?_cons, if_neg hne]
          exact ih

theorem isSome_below?_merge_left (h : (f.below? path).isSome) (g : Forest) :
    ((f.merge g).below? path).isSome := by
  induction g generalizing f path with
  | nil => exact h
  | cons branch below rest ihBelow ih => exact ih (isSome_below?_update h ihBelow)

theorem isSome_below?_merge_right (f : Forest) (h : (g.below? path).isSome) :
    ((f.merge g).below? path).isSome := by
  induction g generalizing f path with
  | nil =>
      cases path with
      | nil => simp [below?]
      | cons first path => simp [below?] at h
  | cons branch below rest ihBelow ih =>
      cases path with
      | nil => simp [below?]
      | cons first path =>
          rw [isSome_below?_cons] at h
          split at h
          · next heq =>
              subst heq
              exact isSome_below?_merge_left (isSome_below?_update_self f fun there => ihBelow there h) rest
          · exact ih _ h

theorem isSome_below?_ofPath (path : List Branch) : ((ofPath path nil).below? path).isSome := by
  induction path with
  | nil => simp [below?]
  | cons branch path ih =>
      change ((cons branch (ofPath path nil) nil).below? (branch :: path)).isSome = true
      rw [isSome_below?_cons, if_pos rfl]
      exact ih

def Known (names : Naming) : Forest → Position → Prop
  | nil, _ => True
  | cons branch below rest, position =>
    (∃ next, branch.target? names position = some next ∧ below.Known names { position with place := next }) ∧
      rest.Known names position

theorem Known.merge (hf : f.Known names position) (hg : g.Known names position) :
    (f.merge g).Known names position := by
  refine merge_closed (C := Position) (Q := Known names) (fun _ => trivial) ?_ ?_ hf hg
  · simp [Known]
  · intro branch below below' merged position h h' hmerged _
    obtain ⟨⟨next, hnext, hbelow⟩, -⟩ := h
    obtain ⟨⟨next', hnext', hbelow'⟩, -⟩ := h'
    obtain rfl := Option.some.inj (hnext.symm.trans hnext')
    exact ⟨⟨next, hnext, hmerged _ hbelow hbelow'⟩, trivial⟩

theorem Known.extends (h : f.Known names position)
    (hnames : Naming.Extends position.scope.keys.length names names') : f.Known names' position := by
  induction f generalizing position with
  | nil => trivial
  | cons branch below rest ihBelow ih =>
      obtain ⟨⟨next, hnext, hbelow⟩, hrest⟩ := h
      exact ⟨⟨next, hnames.target? hnext, ihBelow hbelow hnames⟩, ih hrest hnames⟩

theorem Known.place (h : f.Known names position) :
    (f.place Rule.builtin position names).failure = none ∧
    (f.place Rule.builtin position names).names = names := by
  induction f generalizing position with
  | nil => exact ⟨rfl, rfl⟩
  | cons branch below rest ihBelow ih =>
      obtain ⟨⟨next, hnext, hbelow⟩, hrest⟩ := h
      obtain ⟨route, hplaced⟩ := Branch.placement_of_target? hnext
      obtain ⟨hinner, hnames⟩ := ihBelow hbelow
      rw [place_cons]
      simp only [hplaced, hinner, hnames]
      exact ih hrest

theorem chain_wrap (lead : Route) (hlead : ∀ step ∈ lead, step = .slot ∨ step = .alternative) {e : Edge}
    {inner : Body} {root : String} {es : List Edge} (h : inner.Chain e.target e.target es) :
    (Route.wrap (lead ++ [.edge e]) inner).Chain root root (e :: es) := by
  induction lead with
  | nil => exact Or.inl ⟨rfl, es, rfl, h⟩
  | cons step lead ih =>
      obtain ⟨hstep, hrest⟩ := List.forall_mem_cons.mp hlead
      obtain rfl | rfl := hstep
      · exact Or.inl (ih hrest)
      · exact Or.inl (ih hrest)

/-- A trail with a value at its end is placed as a chain that ends at the variable of the value. -/
theorem Known.chain {q start stop : Place} {es : List Edge} (h : f.Known names ⟨q, scope⟩)
    (htrail : names.Trail scope q path start es stop) {b : PropertyBranch} (hc : b.isComplex = false)
    (hk : b.foreignKey = none) {v : String} (hv : names.value? stop b.name = some v)
    (hpath : (f.below? (path ++ [.property b])).isSome) :
    (f.place Rule.builtin ⟨q, scope⟩ names).body.Chain q.var start.var (es ++ [b.valueEdge v]) := by
  induction f generalizing q start path es with
  | nil =>
      cases path with
      | nil => simp [below?] at hpath
      | cons branch path => simp [below?] at hpath
  | cons branch below rest ihBelow ih =>
      obtain ⟨⟨next, hnext, hbelow⟩, hrest⟩ := h
      obtain ⟨route, hplaced⟩ := Branch.placement_of_target? hnext
      obtain ⟨hinner, hnames⟩ := hbelow.place
      have hothers : ∀ (body : Body) {path start es}, names.Trail scope q path start es stop →
          (rest.below? (path ++ [.property b])).isSome →
          (body.merge (rest.place Rule.builtin ⟨q, scope⟩ names).body).Chain q.var start.var
          (es ++ [b.valueEdge v]) :=
        fun body _ _ _ htrail hpath => (ih hrest htrail hpath).merge_right body
      rw [place_cons]
      simp only [hplaced, hinner, hnames]
      -- the path goes on below this branch, or it is one of the rest
      cases htrail with
      | nil =>
          rw [List.nil_append, isSome_below?_cons] at hpath
          split at hpath
          · next heq =>
              subst heq
              refine Body.Chain.merge_left ?_ _
              rw [Branch.placement_value hc hk, Naming.value, hv] at hplaced
              obtain ⟨rfl, -⟩ := Placement.mk.inj (Except.ok.inj hplaced)
              exact chain_wrap _ (by split <;> simp) (Body.chain_nil _ _)
          · exact hothers _ .nil hpath
      | related hc' hr h =>
          rw [List.cons_append, isSome_below?_cons] at hpath
          split at hpath
          · next heq =>
              subst heq
              refine Body.Chain.merge_left ?_ _
              rw [Branch.target?_related hc'] at hnext
              obtain rfl := Option.some.inj (hnext.symm.trans hr)
              rw [Branch.placement_related hc', Naming.relatedPlace, hr] at hplaced
              obtain ⟨rfl, -⟩ := Placement.mk.inj (Except.ok.inj hplaced)
              exact chain_wrap [_] (by split <;> simp) (ihBelow hbelow h hpath)
          · exact hothers _ (.related hc' hr h) hpath
      | lambda hr h =>
          rw [List.cons_append, isSome_below?_cons] at hpath
          split at hpath
          · next heq =>
              subst heq
              refine Body.Chain.merge_left ?_ _
              rw [Branch.target?_lambda hr] at hnext
              obtain rfl := Option.some.inj hnext
              rw [Branch.placement_lambda hr] at hplaced
              obtain ⟨rfl, -⟩ := Placement.mk.inj (Except.ok.inj hplaced)
              exact Or.inl (ihBelow hbelow h hpath)
          · exact hothers _ (.lambda hr h) hpath

end Forest

theorem Naming.Trail.known {names : Naming} {scope : Scope} {q start stop : Place} {path : List Branch}
    {es : List Edge} (h : names.Trail scope q path start es stop) {last : Forest}
    (hlast : last.Known names ⟨stop, scope⟩) : (Forest.ofPath path last).Known names ⟨q, scope⟩ := by
  induction h with
  | nil => exact hlast
  | related hc hr _ ih => exact ⟨⟨_, (Branch.target?_related hc).trans hr, ih hlast⟩, trivial⟩
  | lambda hr _ ih => exact ⟨⟨_, Branch.target?_lambda hr, ih hlast⟩, trivial⟩

end EntityGraph
