import EntityGraph.Proofs.Naming.Scopes

/-!
# Nearest definitions

A lambda variable stands for its nearest definition on the way outwards, and it is not bound if there is none.
A new definition is what the variable stands for in exactly those scopes that it is now nearest to. Everything
else stands for what it stood for.
-/
namespace EntityGraph

variable {names : Naming} {scope outer : Scope} {key : ScopeKey} {name : String} {found : Namespace}

/-- On the way outwards from the second scope the first one is met. -/
structure Scope.Around (outer scope : Scope) : Prop where
  root : outer.root = scope.root
  chain : outer.chain = scope.chain
  keys : outer.keys <:+ scope.keys

theorem Scope.Around.refl (scope : Scope) : scope.Around scope := ⟨rfl, rfl, List.suffix_refl _⟩

theorem Scope.around_enter : outer.Around (scope.enter key) ↔ outer = scope.enter key ∨
    outer.Around scope := by
  constructor
  · rintro ⟨hroot, hchain, hkeys⟩
    obtain hkeys | hkeys := List.suffix_cons_iff.mp hkeys
    · cases outer
      simp only at hroot hchain hkeys
      exact Or.inl (by rw [hroot, hchain, hkeys]; rfl)
    · exact Or.inr ⟨hroot, hchain, hkeys⟩
  · rintro (rfl | ⟨hroot, hchain, hkeys⟩)
    · exact .refl _
    · exact ⟨hroot, hchain, hkeys.trans (List.suffix_cons key scope.keys)⟩

theorem Scope.around_start {root : Place} {chain : Nat} :
    outer.Around ⟨root, chain, []⟩ ↔ outer = ⟨root, chain, []⟩ := by
  constructor
  · rintro ⟨rfl, rfl, hkeys⟩
    cases outer
    exact congrArg _ (List.suffix_nil.mp hkeys)
  · rintro rfl
    exact .refl _

namespace Naming

/-- The definition of a lambda variable in one scope is the nearest one to another scope. -/
structure Nearest (names : Naming) (scope : Scope) (name : String) (outer : Scope)
    (found : Namespace) : Prop where
  around : outer.Around scope
  defined : names.defined? outer name = some found
  between : ∀ inner : Scope, inner.Around scope → outer.keys.length < inner.keys.length →
    names.defined? inner name = none

theorem Nearest.here (h : names.defined? scope name = some found) : names.Nearest scope name scope found :=
  ⟨.refl scope, h, fun _ hinner hlt => absurd hinner.keys.length_le (Nat.not_le.mpr hlt)⟩

theorem Nearest.enter (h : names.Nearest scope name outer found)
    (hnone : names.defined? (scope.enter key) name = none) :
    names.Nearest (scope.enter key) name outer found := by
  refine ⟨Scope.around_enter.mpr (Or.inr h.around), h.defined, fun inner hinner hlt => ?_⟩
  obtain rfl | hinner := Scope.around_enter.mp hinner
  · exact hnone
  · exact h.between inner hinner hlt

theorem resolve_spec (names : Naming) (scope : Scope) (name : String) :
    match names.resolve scope name with
    | .ok found => ∃ outer, names.Nearest scope name outer found
    | .error e =>
        e = .notBound name ∧ ∀ outer : Scope, outer.Around scope → names.defined? outer name = none := by
  obtain ⟨root, chain, keys⟩ := scope
  induction keys with
  | nil =>
      rw [resolve, resolveFrom]
      cases h : names.defined? ⟨root, chain, []⟩ name with
      | some found => exact ⟨_, .here h⟩
      | none => exact ⟨rfl, fun outer houter => Scope.around_start.mp houter ▸ h⟩
  | cons key rest ih =>
      rw [show (⟨root, chain, key :: rest⟩ : Scope) = Scope.enter ⟨root, chain, rest⟩ key from rfl,
        resolve_enter]
      cases h : names.defined? (Scope.enter ⟨root, chain, rest⟩ key) name with
      | some found => exact ⟨_, .here h⟩
      | none =>
          simp only
          cases hrest : names.resolve ⟨root, chain, rest⟩ name with
          | ok found =>
              rw [hrest] at ih
              obtain ⟨outer, houter⟩ := ih
              exact ⟨outer, houter.enter h⟩
          | error e =>
              rw [hrest] at ih
              refine ⟨ih.1, fun outer houter => ?_⟩
              obtain rfl | houter := Scope.around_enter.mp houter
              · exact h
              · exact ih.2 outer houter

theorem Nearest.resolve (h : names.Nearest scope name outer found) :
    names.resolve scope name = .ok found := by
  have hspec := names.resolve_spec scope name
  cases hr : names.resolve scope name with
  | ok found' =>
      rw [hr] at hspec
      obtain ⟨outer', h'⟩ := hspec
      -- Two scopes around one scope are the same if they are equally far out.
      have hlength : outer.keys.length = outer'.keys.length := by
        obtain hlt | heq | hlt := Nat.lt_trichotomy outer.keys.length outer'.keys.length
        · simpa [h'.defined] using h.between outer' h'.around hlt
        · exact heq
        · simpa [h.defined] using h'.between outer h.around hlt
      have hkeys :=
        (List.suffix_of_suffix_length_le h.around.keys h'.around.keys hlength.le).eq_of_length hlength
      have hscope : outer = outer' := by
        cases outer
        cases outer'
        simp only at hkeys
        rw [Scope.mk.injEq]
        exact ⟨h.around.root.trans h'.around.root.symm, h.around.chain.trans h'.around.chain.symm, hkeys⟩
      subst hscope
      rw [Option.some.inj (h.defined.symm.trans h'.defined)]
  | error e =>
      rw [hr] at hspec
      simpa [h.defined] using hspec.2 outer h.around

theorem resolve_of_undefined (h : ∀ outer : Scope, outer.Around scope → names.defined? outer name = none) :
    names.resolve scope name = .error (.notBound name) := by
  have hspec := names.resolve_spec scope name
  cases hr : names.resolve scope name with
  | ok found =>
      rw [hr] at hspec
      obtain ⟨outer, houter⟩ := hspec
      simpa [houter.defined] using h outer houter.around
  | error e =>
      rw [hr] at hspec
      rw [hspec.1]

/-- A new definition is what the variable stands for where it is the nearest one. Nothing else changes. -/
theorem resolve_bound (names : Naming) (outer : Scope) (lambda entityType : String) (scope : Scope)
    (name : String) : (names.bound outer lambda entityType).resolve scope name = names.resolve scope name ∨
      name = lambda ∧ (names.bound outer lambda entityType).Nearest scope name outer
        ⟨⟨names.next⟩, entityType⟩ := by
  have hkept : ∀ scope', names.defined? scope' name = none ∨
      (names.bound outer lambda entityType).defined? scope' name = names.defined? scope' name :=
      fun scope' => by
    rw [defined?_bound]
    cases names.defined? scope' name <;> simp
  have hspec := (names.bound outer lambda entityType).resolve_spec scope name
  cases hr : (names.bound outer lambda entityType).resolve scope name with
  | ok found =>
      rw [hr] at hspec
      obtain ⟨around, hnear⟩ := hspec
      obtain hold | ⟨rfl, rfl, rfl, -⟩ := lookup_of_append hnear.defined
      · refine Or.inl (Nearest.resolve ⟨hnear.around, hold, fun inner hinner hlt => ?_⟩).symm
        have hnone := hnear.between inner hinner hlt
        exact (hkept inner).elim id fun heq => heq ▸ hnone
      · exact Or.inr ⟨rfl, hnear⟩
  | error e =>
      rw [hr] at hspec
      refine Or.inl ?_
      rw [hspec.1, resolve_of_undefined fun around haround => ?_]
      exact (hkept around).elim id fun heq => heq ▸ hspec.2 around haround

end Naming
end EntityGraph
