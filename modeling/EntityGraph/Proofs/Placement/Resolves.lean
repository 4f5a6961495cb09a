import EntityGraph.Proofs.Placement.Asks

/-!
# When a forest can be placed

Properties can always be placed. A branch at a lambda variable can be placed in a scope where the
variable is bound, and the elements of a collection in a scope inside of which theirs is. So a forest
resolves, in a scope, by the lambda variables alone, and whatever resolves is placed without failure.

The forests that conditions ask for have lambda variables at the top only, and below them properties.
They resolve wherever the lambda variables are bound; and what they ask for beside the variable of an
`any` resolves outside of it.
-/
namespace EntityGraph

def Branch.IsProperty (branch : Branch) : Prop :=
  ∃ b, branch = .property b

/-- A property, or what one of the lambda variables stands for. -/
def Branch.IsTop (lambda : String → Option EntityType) (branch : Branch) : Prop :=
  branch.IsProperty ∨ ∃ name t, branch = .lambda name t.name ∧ lambda name = some t

/-- The lambda variables are bound in the scope. -/
def Naming.Binds (names : Naming) (scope : Scope) (lambda : String → Option EntityType) : Prop :=
  ∀ name t, lambda name = some t → ∃ place, names.resolve scope name = .ok ⟨place, t.name⟩

namespace Forest

/-- The lambda variables of a forest are bound where it is placed. -/
def Resolves (names : Naming) : Forest → Scope → Prop
  | nil, _ => True
  | cons (.property _) below rest, scope => below.Resolves names scope ∧ rest.Resolves names scope
  | cons (.lambda name _) below rest, scope =>
    (∃ found, names.resolve scope name = .ok found) ∧ below.Resolves names scope ∧
      rest.Resolves names scope
  | cons (.any a) below rest, scope =>
    (∃ found, names.resolve (scope.enter a.key) a.lambda = .ok found) ∧
      below.Resolves names (scope.enter a.key) ∧ rest.Resolves names scope

/-- The branches at the top are `top`, all others properties. -/
def Made : Forest → (Branch → Prop) → Prop
  | nil, _ => True
  | cons branch below rest, top => top branch ∧ below.Made Branch.IsProperty ∧ rest.Made top

def Every (P : Branch → Prop) : Forest → Prop
  | nil => True
  | cons branch below rest => P branch ∧ below.Every P ∧ rest.Every P

variable {names names' : Naming} {scope : Scope} {position : Position} {f g : Forest}
  {lambda : String → Option EntityType} {P : Branch → Prop}

theorem Every.merge (hf : f.Every P) (hg : g.Every P) : (f.merge g).Every P := by
  refine merge_closed (C := Unit) (Q := fun f _ => f.Every P) (fun _ => trivial) ?_ ?_ (c := ()) hf hg
  · intro branch below rest _
    simp [Every, and_assoc]
  · intro branch below below' merged _ h h' hmerged _
    exact ⟨h.1, hmerged () h.2.1 h'.2.1, trivial⟩

theorem Every.filterTop (h : f.Every P) (p : Branch → Bool) : (f.filterTop p).Every P := by
  induction f with
  | nil => trivial
  | cons branch below rest _ ih =>
      unfold Forest.filterTop
      split
      · exact ⟨h.1, h.2.1, ih h.2.2⟩
      · exact ih h.2.2

theorem Every.ofPath {way : List Branch} (hway : ∀ branch ∈ way, P branch) {last : Forest}
    (hlast : last.Every P) : (ofPath way last).Every P := by
  induction way with
  | nil => exact hlast
  | cons branch rest ih =>
      obtain ⟨hbranch, hrest⟩ := List.forall_mem_cons.mp hway
      exact ⟨hbranch, ih hrest, trivial⟩

theorem Resolves.congr (h : f.Resolves names scope)
    (hsame : ∀ scope name, names'.resolve scope name = names.resolve scope name) :
    f.Resolves names' scope := by
  induction f generalizing scope with
  | nil => trivial
  | cons branch below rest ihBelow ih =>
      cases branch with
      | property b => exact ⟨ihBelow h.1, ih h.2⟩
      | lambda name type =>
          obtain ⟨⟨found, hfound⟩, hbelow, hrest⟩ := h
          exact ⟨⟨found, (hsame _ _).trans hfound⟩, ihBelow hbelow, ih hrest⟩
      | any a =>
          obtain ⟨⟨found, hfound⟩, hbelow, hrest⟩ := h
          exact ⟨⟨found, (hsame _ _).trans hfound⟩, ihBelow hbelow, ih hrest⟩

theorem Resolves.cons_iff {branch : Branch} {below rest : Forest} :
    (cons branch below rest).Resolves names scope ↔
      (cons branch below nil).Resolves names scope ∧ rest.Resolves names scope := by
  cases branch <;> simp [Resolves, and_assoc]

theorem Resolves.merge (hf : f.Resolves names scope) (hg : g.Resolves names scope) :
    (f.merge g).Resolves names scope := by
  refine merge_closed (C := Scope) (Q := fun f c => f.Resolves names c) (fun _ => trivial)
    Resolves.cons_iff ?_ (c := scope) hf hg
  intro branch below below' merged c h h' hmerged _
  cases branch with
  | property b => exact ⟨hmerged c h.1 h'.1, trivial⟩
  | lambda name type => exact ⟨h.1, hmerged c h.2.1 h'.2.1, trivial⟩
  | any a => exact ⟨h.1, hmerged _ h.2.1 h'.2.1, trivial⟩

/-- What is placed first keeps the lambda variables of what is placed later. -/
theorem Resolves.place (h : f.Resolves names position.scope) :
    (f.place Rule.builtin position names).failure = none := by
  induction f generalizing position names with
  | nil => rfl
  | cons branch below rest ihBelow ih =>
      obtain ⟨hbranch, hrest⟩ := Resolves.cons_iff.mp h
      have hplaced : ∃ placement, branch.placement position names = .ok placement ∧
          below.Resolves names placement.position.scope := by
        cases branch with
        | property b =>
            simp only [Branch.placement]
            split
            · exact ⟨_, rfl, hbranch.1⟩
            · split
              · exact ⟨_, rfl, hbranch.1⟩
              · exact ⟨_, rfl, hbranch.1⟩
        | lambda name type =>
            obtain ⟨⟨found, hfound⟩, hbelow, -⟩ := hbranch
            exact ⟨_, Branch.placement_lambda hfound, hbelow⟩
        | any a =>
            obtain ⟨⟨found, hfound⟩, hbelow, -⟩ := hbranch
            exact ⟨_, Branch.placement_any hfound, hbelow⟩
      obtain ⟨placement, hplaced, hbelow⟩ := hplaced
      have hkeeps := Branch.placement_keeps hplaced
      have hinner := ihBelow (hbelow.congr hkeeps.resolve)
      rw [place_cons]
      simp only [hplaced, hinner]
      exact ih (hrest.congr (hkeeps.trans place_keeps).resolve)

theorem placeAll_ok (h : f.Resolves names position.scope) :
    ∃ body, f.placeAll Rule.builtin position names =
      .ok (body, (f.place Rule.builtin position names).names) := by
  unfold placeAll
  simp only [h.place]
  exact ⟨_, rfl⟩

theorem Made.mono {top top' : Branch → Prop} (h : f.Made top) (himp : ∀ b, top b → top' b) :
    f.Made top' := by
  induction f with
  | nil => trivial
  | cons branch below rest _ ih => exact ⟨himp _ h.1, h.2.1, ih h.2.2⟩

theorem Made.merge {top : Branch → Prop} (hf : f.Made top) (hg : g.Made top) : (f.merge g).Made top := by
  refine merge_closed (C := Branch → Prop) (Q := Made) (fun _ => trivial) ?_ ?_ hf hg
  · intro branch below rest top
    simp [Made, and_assoc]
  · intro branch below below' merged top h h' hmerged _
    exact ⟨h.1, hmerged _ h.2.1 h'.2.1, trivial⟩

theorem Made.filterTop {top : Branch → Prop} (h : f.Made top) (p : Branch → Bool) :
    (f.filterTop p).Made fun branch => top branch ∧ p branch = true := by
  induction f with
  | nil => trivial
  | cons branch below rest _ ih =>
      unfold Forest.filterTop
      split
      · next hp => exact ⟨⟨h.1, hp⟩, h.2.1, ih h.2.2⟩
      · exact ih h.2.2

theorem Every.made (h : f.Every Branch.IsProperty) : f.Made Branch.IsProperty := by
  induction f with
  | nil => trivial
  | cons branch below rest ihBelow ih => exact ⟨h.1, ihBelow h.2.1, ih h.2.2⟩

theorem Made.resolves_properties (h : f.Made Branch.IsProperty) : f.Resolves names scope := by
  induction f with
  | nil => trivial
  | cons branch below rest ihBelow ih =>
      obtain ⟨⟨b, rfl⟩, hbelow, hrest⟩ := h
      exact ⟨ihBelow hbelow, ih hrest⟩

theorem Made.resolves (h : f.Made (Branch.IsTop lambda)) (hbinds : names.Binds scope lambda) :
    f.Resolves names scope := by
  induction f with
  | nil => trivial
  | cons branch below rest _ ih =>
      obtain ⟨htop, hbelow, hrest⟩ := h
      obtain ⟨b, rfl⟩ | ⟨name, t, rfl, hlambda⟩ := htop
      · exact ⟨hbelow.resolves_properties, ih hrest⟩
      · obtain ⟨place, hplace⟩ := hbinds name t hlambda
        exact ⟨⟨_, hplace⟩, hbelow.resolves_properties, ih hrest⟩

/-- The pattern of an `any` can be placed where the other lambda variables are bound, if its own one is
bound inside. -/
theorem Made.resolves_join {a : AnyBranch} {t : EntityType} {way : List Branch}
    (hf : f.Made (Branch.IsTop (Function.update lambda a.lambda (some t))))
    (hway : ∀ {last : Forest}, last.Resolves names scope → (ofPath way last).Resolves names scope)
    (houter : names.Binds scope lambda)
    (hinner : names.Binds (scope.enter a.key) (Function.update lambda a.lambda (some t))) :
    (Filter.joinForest way a t.name f).Resolves names scope := by
  refine Resolves.merge (hway ⟨?_, ?_, trivial⟩) ?_
  · obtain ⟨place, hplace⟩ := hinner a.lambda t (Function.update_self ..)
    exact ⟨_, hplace⟩
  · refine Made.resolves (Made.mono (hf.filterTop _) fun b h => ?_) hinner
    exact h.1
  · refine Made.resolves (Made.mono (hf.filterTop _) fun b h => ?_) houter
    obtain ⟨htop, hne⟩ := h
    obtain hproperty | ⟨name, t', rfl, hlambda⟩ := htop
    · exact Or.inl hproperty
    · refine Or.inr ⟨name, t', rfl, ?_⟩
      have hname : name ≠ a.lambda := by
        rintro rfl
        obtain rfl : t = t' := by simpa using hlambda
        simp at hne
      rwa [Function.update_of_ne hname] at hlambda

end Forest
end EntityGraph
