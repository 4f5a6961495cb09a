import EntityGraph.Proofs.Filter.Renaming
import EntityGraph.Proofs.Placement.Resolves

/-!
# Forests up to the names of lambda variables

Two forests may differ in the names of lambda variables and in the keys of scopes. Where corresponding
lambda variables stand for the same entities, they are placed as one and the same pattern, and the same
variables are made up on the way. Merging keeps forests alike, since corresponding branches are equal to
the same branches on either side; so do the steps by which the pattern of an `any` comes about.
-/
namespace EntityGraph

/-- The same variables for the same values and entities, whatever the scopes and their lambda variables. -/
structure Naming.Same (names names' : Naming) : Prop where
  next : names.next = names'.next
  values : names.values = names'.values
  related : names.related = names'.related

/-- Corresponding names stand for the same in both scopes. -/
def Naming.Agree (pairs : List (String × String)) (names : Naming) (scope : Scope) (names' : Naming)
    (scope' : Scope) : Prop :=
  ∀ ⦃name name' : String⦄, Corresponds pairs name name' →
    ∀ found, names.resolve scope name = .ok found ↔ names'.resolve scope' name' = .ok found

namespace Naming

variable {pairs : List (String × String)} {names names' after after' : Naming} {scope scope' : Scope}

theorem Same.refl (names : Naming) : names.Same names := ⟨rfl, rfl, rfl⟩

theorem Same.fresh (h : names.Same names') :
    ∃ var after after', names.fresh = (var, after) ∧ names'.fresh = (var, after') ∧ after.Same after' := by
  unfold Naming.fresh
  rw [h.next]
  exact ⟨_, _, _, rfl, rfl, rfl, h.values, h.related⟩

theorem Same.value? (h : names.Same names') (place : Place) (property : String) :
    names.value? place property = names'.value? place property := by
  rw [Naming.value?, Naming.value?, h.values]

theorem Same.related? (h : names.Same names') (place : Place) (property : String) :
    names.related? place property = names'.related? place property := by
  rw [Naming.related?, Naming.related?, h.related]

theorem Same.value (h : names.Same names') (place : Place) (property : String) :
    ∃ var after after', names.value place property = (var, after) ∧
      names'.value place property = (var, after') ∧ after.Same after' := by
  unfold Naming.value Naming.fresh
  rw [h.value? place property, h.next]
  cases names'.value? place property with
  | some var => exact ⟨var, names, names', rfl, rfl, h⟩
  | none => exact ⟨_, _, _, rfl, rfl, rfl, by simp only [h.values], h.related⟩

theorem Same.link (h : names.Same names') (place : Place) (property var : String) :
    (names.link place property var).2.Same (names'.link place property var).2 := by
  unfold Naming.link
  rw [h.value? place property]
  cases names'.value? place property with
  | some kept => exact h
  | none => exact ⟨h.next, by simp only [h.values], h.related⟩

theorem Same.relatedPlace (h : names.Same names') (place : Place) (property : String) :
    ∃ target after after', names.relatedPlace place property = (target, after) ∧
      names'.relatedPlace place property = (target, after') ∧ after.Same after' := by
  unfold Naming.relatedPlace Naming.newPlace
  rw [h.related? place property, h.next]
  cases names'.related? place property with
  | some target => exact ⟨target, names, names', rfl, rfl, h⟩
  | none => exact ⟨_, _, _, rfl, rfl, rfl, h.values, by simp only [h.related]⟩

theorem Same.bound (h : names.Same names') {lambda lambda' type : String} :
    (names.bound scope lambda type).Same (names'.bound scope' lambda' type) :=
  ⟨congrArg (· + 1) h.next, h.values, h.related⟩

theorem Agree.keeps (h : Agree pairs names scope names' scope') (hk : names.Keeps after)
    (hk' : names'.Keeps after') : Agree pairs after scope after' scope' := by
  intro name name' hname found
  rw [hk.resolve, hk'.resolve]
  exact h hname found

/-- New scopes on both sides, where a lambda variable is bound to the same entity. -/
theorem Agree.bound {outer outer' : Scope} {key key' : ScopeKey} {keys keys' : Set ScopeKey}
    {lambda lambda' : String} (h : Agree pairs names outer names' outer') (hsame : names.Same names')
    (hscoped : names.Scoped keys) (hscoped' : names'.Scoped keys') (hkey : key ∉ keys) (hkey' : key' ∉ keys')
    (hknown : ∀ k ∈ outer.keys, k ∈ keys) (hknown' : ∀ k ∈ outer'.keys, k ∈ keys') (type : String) :
    Agree ((lambda, lambda') :: pairs) (names.bound (outer.enter key) lambda type) (outer.enter key)
      (names'.bound (outer'.enter key') lambda' type) (outer'.enter key') := by
  intro name name' hname found
  obtain ⟨rfl, rfl⟩ | ⟨hne, hne', hname⟩ := hname
  · rw [hscoped.resolve_bound hkey, hscoped'.resolve_bound hkey', hsame.next]
  · rw [hscoped.resolve_bound_other hkey _ _ hne, hscoped'.resolve_bound_other hkey' _ _ hne',
      resolve_bound_of_known hkey hknown, resolve_bound_of_known hkey' hknown']
    exact h hname found

end Naming

/-- The same property, or lambda variables of one type with corresponding names. -/
inductive Branch.Alpha (pairs : List (String × String)) : Branch → Branch → Prop
  | property (b : PropertyBranch) : Alpha pairs (.property b) (.property b)
  | lambda {name name' : String} (h : Corresponds pairs name name') (type : String) :
      Alpha pairs (.lambda name type) (.lambda name' type)

section Branch

variable {pairs : List (String × String)} {branch branch' other other' : Branch} {names names' : Naming}
  {scope scope' : Scope}

theorem Branch.Alpha.unique (h : branch.Alpha pairs branch') (h' : other.Alpha pairs other') :
    branch = other ↔ branch' = other' := by
  cases h with
  | property b =>
      cases h' with
      | property b' => exact Iff.rfl
      | lambda h' type => simp
  | lambda h type =>
      cases h' with
      | property b => simp
      | lambda h' type' => simp [h.unique h']

theorem Branch.Alpha.ne_any (h : branch.Alpha pairs branch') (a a' : AnyBranch) :
    .any a ≠ branch ∧ .any a' ≠ branch' := by
  cases h with
  | property b => simp
  | lambda h type => simp

theorem Branch.Alpha.placement (h : branch.Alpha pairs branch') (hsame : names.Same names')
    (hagree : Naming.Agree pairs names scope names' scope')
    (hbound : ∀ name type, branch = .lambda name type → ∃ found, names.resolve scope name = .ok found)
    (place : Place) :
    ∃ route target after after', branch.placement ⟨place, scope⟩ names = .ok ⟨route, ⟨target, scope⟩, after⟩ ∧
      branch'.placement ⟨place, scope'⟩ names' = .ok ⟨route, ⟨target, scope'⟩, after'⟩ ∧
        after.Same after' := by
  cases h with
  | @lambda name name' h type =>
      obtain ⟨found, hfound⟩ := hbound name type rfl
      exact ⟨_, _, names, names', placement_lambda hfound,
        placement_lambda ((hagree h found).mp hfound), hsame⟩
  | property b =>
      cases hc : b.isComplex with
      | true =>
          obtain ⟨target, after, after', hleft, hright, hafter⟩ := hsame.relatedPlace place b.name
          simp only [placement_related hc, hleft, hright]
          exact ⟨_, target, after, after', rfl, rfl, hafter⟩
      | false =>
          cases hk : b.foreignKey with
          | none =>
              obtain ⟨var, after, after', hleft, hright, hafter⟩ := hsame.value place b.name
              simp only [placement_value hc hk, hleft, hright]
              exact ⟨_, place, after, after', rfl, rfl, hafter⟩
          | some key =>
              obtain ⟨target, after, after', hleft, hright, hafter⟩ := hsame.relatedPlace place key.navigation
              obtain ⟨var, last, last', hvar, hvar', hlast⟩ := hafter.value target idName
              exact ⟨_, _, _, _, placement_foreignKey hc hk hleft hvar,
                placement_foreignKey hc hk hright hvar', hlast.link place b.name var⟩

end Branch

namespace Forest

/-- The forests are the same up to lambda variables and keys, in two scopes. Below the elements of a
collection the lambda variables that are bound to them correspond. -/
inductive Alpha (names names' : Naming) : List (String × String) → Scope → Scope → Forest → Forest → Prop
  | nil {pairs : List (String × String)} {scope scope' : Scope} :
      Alpha names names' pairs scope scope' nil nil
  | cons {pairs : List (String × String)} {scope scope' : Scope} {branch branch' : Branch}
      {below below' rest rest' : Forest} (h : branch.Alpha pairs branch')
      (hbelow : Alpha names names' pairs scope scope' below below')
      (hrest : Alpha names names' pairs scope scope' rest rest') :
      Alpha names names' pairs scope scope' (cons branch below rest) (cons branch' below' rest')
  | any {pairs : List (String × String)} {scope scope' : Scope} {a a' : AnyBranch}
      {below below' rest rest' : Forest} (hhop : a.hop = a'.hop)
      (hagree : Naming.Agree ((a.lambda, a'.lambda) :: pairs) names (scope.enter a.key) names'
        (scope'.enter a'.key))
      (hbelow : Alpha names names' ((a.lambda, a'.lambda) :: pairs) (scope.enter a.key) (scope'.enter a'.key)
        below below')
      (hrest : Alpha names names' pairs scope scope' rest rest') :
      Alpha names names' pairs scope scope' (cons (.any a) below rest) (cons (.any a') below' rest')

/-- Placed as a whole, as the same pattern and with the same variables. -/
structure PlacedAlike (placed placed' : Placed) : Prop where
  failure : placed.failure = none
  failure' : placed'.failure = none
  body : placed.body = placed'.body
  names : placed.names.Same placed'.names

variable {pairs : List (String × String)} {base base' names names' : Naming} {scope scope' : Scope}
  {f f' g g' : Forest} {branch branch' : Branch}

/-- Branches that are placed in the same way, with what is below and after them. -/
theorem PlacedAlike.cons {below below' rest rest' : Forest} {route : Route} {place target : Place}
    {inner inner' : Scope} {after after' : Naming}
    (hbelow : PlacedAlike (below.place Rule.builtin ⟨target, inner⟩ after)
      (below'.place Rule.builtin ⟨target, inner'⟩ after'))
    (hplaced : branch.placement ⟨place, scope⟩ names = .ok ⟨route, ⟨target, inner⟩, after⟩)
    (hplaced' : branch'.placement ⟨place, scope'⟩ names' = .ok ⟨route, ⟨target, inner'⟩, after'⟩)
    (hrest : PlacedAlike
      (rest.place Rule.builtin ⟨place, scope⟩ (below.place Rule.builtin ⟨target, inner⟩ after).names)
      (rest'.place Rule.builtin ⟨place, scope'⟩ (below'.place Rule.builtin ⟨target, inner'⟩ after').names)) :
    PlacedAlike ((Forest.cons branch below rest).place Rule.builtin ⟨place, scope⟩ names)
      ((Forest.cons branch' below' rest').place Rule.builtin ⟨place, scope'⟩ names') := by
  rw [place_cons, place_cons, hplaced, hplaced']
  simp only [hbelow.failure, hbelow.failure']
  refine ⟨hrest.failure, hrest.failure', ?_, hrest.names⟩
  rw [hbelow.body, hrest.body]

/-- Forests that are alike are placed alike, where corresponding names stand for the same. -/
theorem Alpha.place (h : Alpha base base' pairs scope scope' f f') (hk : base.Keeps names)
    (hk' : base'.Keeps names') (hsame : names.Same names')
    (hagree : Naming.Agree pairs base scope base' scope') (hr : f.Resolves base scope) (place : Place) :
    PlacedAlike (f.place Rule.builtin ⟨place, scope⟩ names)
      (f'.place Rule.builtin ⟨place, scope'⟩ names') := by
  induction h generalizing names names' place with
  | nil => exact ⟨rfl, rfl, rfl, hsame⟩
  | @cons pairs scope scope' branch branch' below below' rest rest' hb _ _ ihBelow ih =>
      obtain ⟨hhead, hrest⟩ := Resolves.cons_iff.mp hr
      have hbelow : below.Resolves base scope := by
        cases branch with
        | property b => exact hhead.1
        | lambda name type => exact hhead.2.1
        | any a => cases hb
      have hbound : ∀ name type, branch = .lambda name type → ∃ found,
        names.resolve scope name = .ok found := by
        rintro name type rfl
        rw [hk.resolve]
        exact hhead.1
      obtain ⟨route, target, after, after', hplaced, hplaced', hafter⟩ :=
        hb.placement hsame (hagree.keeps hk hk') hbound place
      have hinner := ihBelow (hk.trans (Branch.placement_keeps hplaced))
        (hk'.trans (Branch.placement_keeps hplaced')) hafter hagree hbelow target
      refine hinner.cons hplaced hplaced' (ih ?_ ?_ hinner.names hagree hrest place)
      · exact (hk.trans (Branch.placement_keeps hplaced)).trans place_keeps
      · exact (hk'.trans (Branch.placement_keeps hplaced')).trans place_keeps
  | @any pairs scope scope' a a' below below' rest rest' hhop hinside _ _ ihBelow ih =>
      obtain ⟨⟨found, hfound⟩, hbelow, hrest⟩ := hr
      have hfound' := (hinside (.head ..) found).mp hfound
      rw [← hk.resolve] at hfound
      rw [← hk'.resolve] at hfound'
      have hplaced := @Branch.placement_any ⟨place, scope⟩ names a found hfound
      have hplaced' := @Branch.placement_any ⟨place, scope'⟩ names' a' found hfound'
      rw [← hhop] at hplaced'
      have hinner := ihBelow hk hk' hsame hinside hbelow found.place
      exact hinner.cons hplaced hplaced'
        (ih (hk.trans place_keeps) (hk'.trans place_keeps) hinner.names hagree hrest place)

theorem PlacedAlike.placeAll {position position' : Position}
    (h : PlacedAlike (f.place Rule.builtin position names) (f'.place Rule.builtin position' names')) :
    ∃ body after after', f.placeAll Rule.builtin position names = .ok (body, after) ∧
      f'.placeAll Rule.builtin position' names' = .ok (body, after') ∧ after.Same after' := by
  unfold Forest.placeAll
  simp only [h.failure, h.failure', h.body]
  exact ⟨_, _, _, rfl, rfl, h.names⟩

theorem Alpha.ofPath {way way' : List Branch} (hway : List.Forall₂ (Branch.Alpha pairs) way way')
    (h : Alpha base base' pairs scope scope' f f') :
    Alpha base base' pairs scope scope' (ofPath way f) (ofPath way' f') := by
  induction hway with
  | nil => exact h
  | cons hb _ ih => exact .cons hb ih .nil

theorem Alpha.update {there there' : Forest → Forest} (h : Alpha base base' pairs scope scope' f f')
    (hb : branch.Alpha pairs branch')
    (hthere : ∀ {below below'}, Alpha base base' pairs scope scope' below below' →
      Alpha base base' pairs scope scope' (there below) (there' below')) :
    Alpha base base' pairs scope scope' (f.update branch there) (f'.update branch' there') := by
  induction h with
  | nil => exact .cons hb (hthere .nil) .nil
  | @cons pairs scope scope' first first' below below' rest rest' hhead hbelow hrest _ ih =>
      unfold Forest.update
      by_cases heq : first = branch
      · rw [if_pos heq, if_pos ((hhead.unique hb).mp heq)]
        exact .cons hhead (hthere hbelow) hrest
      · rw [if_neg heq, if_neg fun heq' => heq ((hhead.unique hb).mpr heq')]
        exact .cons hhead hbelow (ih hb hthere)
  | @any pairs scope scope' a a' below below' rest rest' hhop hinside hbelow hrest _ ih =>
      obtain ⟨hne, hne'⟩ := hb.ne_any a a'
      unfold Forest.update
      rw [if_neg hne, if_neg hne']
      exact .any hhop hinside hbelow (ih hb hthere)

/-- Merging, where nothing is added about the elements of a collection. -/
theorem Alpha.merge {top : Branch → Prop} (hf : Alpha base base' pairs scope scope' f f')
    (hg : Alpha base base' pairs scope scope' g g') (hmade : g.Made top) (htop : ∀ a, ¬ top (.any a)) :
    Alpha base base' pairs scope scope' (f.merge g) (f'.merge g') := by
  induction hg generalizing f f' top with
  | nil => exact hf
  | cons hb _ _ ihBelow ih =>
      obtain ⟨-, hbelow, hrest⟩ := hmade
      refine ih (hf.update hb fun hthere => ihBelow hthere hbelow ?_) hrest htop
      rintro a ⟨b, heq⟩
      cases heq
  | any => exact absurd hmade.1 (htop _)

theorem Alpha.properties (h : Alpha base base' pairs scope scope' f f') (hmade : f.Made Branch.IsProperty)
    (pairs' : List (String × String)) (outer outer' : Scope) :
    Alpha base base' pairs' outer outer' f f' := by
  induction h with
  | nil => exact .nil
  | cons hb _ _ ihBelow ih =>
      obtain ⟨⟨b, rfl⟩, hbelow, hrest⟩ := hmade
      cases hb with
      | property b => exact .cons (.property b) (ihBelow hbelow) (ih hrest)
  | any =>
      obtain ⟨⟨b, heq⟩, -⟩ := hmade
      cases heq

theorem Alpha.filterTop_eq (h : Alpha base base' pairs scope scope' f f') (hb : branch.Alpha pairs branch') :
    Alpha base base' pairs scope scope' (f.filterTop (· = branch)) (f'.filterTop (· = branch')) := by
  induction h with
  | nil => exact .nil
  | cons hhead hbelow _ _ ih =>
      unfold Forest.filterTop
      simp only [hhead.unique hb, decide_eq_true_eq]
      split
      · exact .cons hhead hbelow (ih hb)
      · exact ih hb
  | @any pairs scope scope' a a' below below' rest rest' _ _ _ _ _ ih =>
      obtain ⟨hne, hne'⟩ := hb.ne_any a a'
      unfold Forest.filterTop
      simp only [hne, hne', decide_false, Bool.false_eq_true, if_false]
      exact ih hb

theorem Alpha.filterTop_ne {lambda : String → Option EntityType} {t : EntityType} {name name' : String}
    {inner inner' : Scope} (h : Alpha base base' ((name, name') :: pairs) inner inner' f f')
    (hmade : f.Made (Branch.IsTop (Function.update lambda name (some t)))) :
    Alpha base base' pairs scope scope' (f.filterTop (· ≠ .lambda name t.name))
      (f'.filterTop (· ≠ .lambda name' t.name)) := by
  have hown : Branch.Alpha ((name, name') :: pairs) (.lambda name t.name) (.lambda name' t.name) :=
    .lambda (.head ..) t.name
  generalize hinside : (name, name') :: pairs = inside at h hown
  induction h with
  | nil => exact .nil
  | @cons _ _ _ first first' below below' rest rest' hhead hbelow _ _ ih =>
      subst hinside
      obtain ⟨htop, hproperties, hrest⟩ := hmade
      have htail := ih hrest rfl hown
      unfold Forest.filterTop
      by_cases heq : first = .lambda name t.name
      · simp only [heq, (hhead.unique hown).mp heq, ne_eq, not_true_eq_false, decide_false,
          Bool.false_eq_true, if_false]
        exact htail
      · have hne' : first' ≠ .lambda name' t.name := fun heq' => heq ((hhead.unique hown).mpr heq')
        rw [if_pos (decide_eq_true heq), if_pos (decide_eq_true hne')]
        refine .cons ?_ (hbelow.properties hproperties pairs scope scope') htail
        cases hhead with
        | property b => exact .property b
        | @lambda other other' hother type =>
            obtain ⟨rfl, rfl⟩ | ⟨-, -, hother⟩ := hother
            · -- the variable itself, which has one type only
              obtain ⟨b, hb⟩ | ⟨_, t', hb, hlambda⟩ := htop
              · cases hb
              · obtain ⟨rfl, rfl⟩ := Branch.lambda.inj hb
                obtain rfl : t = t' := by simpa using hlambda
                exact absurd rfl heq
            · exact .lambda hother type
  | any =>
      obtain ⟨⟨b, heq⟩ | ⟨_, _, heq, _⟩, -⟩ := hmade
      · cases heq
      · cases heq

/-- The patterns of corresponding `any`s are made of forests that are alike. -/
theorem Alpha.join {lambda : String → Option EntityType} {t : EntityType} {way way' : List Branch}
    {a a' : AnyBranch} (hway : List.Forall₂ (Branch.Alpha pairs) way way') (hhop : a.hop = a'.hop)
    (hagree : Naming.Agree ((a.lambda, a'.lambda) :: pairs) base (scope.enter a.key) base'
      (scope'.enter a'.key))
    (h : Alpha base base' ((a.lambda, a'.lambda) :: pairs) (scope.enter a.key) (scope'.enter a'.key) f f')
    (hmade : f.Made (Branch.IsTop (Function.update lambda a.lambda (some t)))) :
    Alpha base base' pairs scope scope' (Filter.joinForest way a t.name f)
      (Filter.joinForest way' a' t.name f') := by
  have hown : Branch.Alpha ((a.lambda, a'.lambda) :: pairs) (.lambda a.lambda t.name)
      (.lambda a'.lambda t.name) := .lambda (.head ..) t.name
  refine Alpha.merge (.ofPath hway (.any hhop hagree (h.filterTop_eq hown) .nil)) (h.filterTop_ne hmade)
    (hmade.filterTop _) ?_
  rintro b ⟨⟨_, heq⟩ | ⟨_, _, heq, _⟩, -⟩
  · cases heq
  · cases heq

end Forest
end EntityGraph
