import EntityGraph.Naming.Scope
import Mathlib.Data.Set.Insert
import Mathlib.Tactic.Common

/-!
# Opening scopes

Lambda variables are resolved by the definitions alone. A scope that is entered with a new key has no
definitions yet: a lambda variable can be bound there, it is what the name stands for in the scope,
and everything else stands for what it stands for outside. Scopes with known keys are not affected.
-/
namespace EntityGraph

theorem lookup_append_singleton {α β : Type} [BEq α] [LawfulBEq α] [DecidableEq α]
    (entries : List (α × β)) (a b : α) (x : β) :
    (entries ++ [(a, x)]).lookup b = (entries.lookup b).or (if b = a then some x else none) := by
  rw [List.lookup_append]
  congr 1
  by_cases h : b = a <;> simp [h]

theorem getElem?_append_singleton {α : Type} {l : List α} {a b : α} {i : Nat} :
    (l ++ [a])[i]? = some b ↔ l[i]? = some b ∨ (i = l.length ∧ b = a) := by
  obtain hlt | rfl | hgt := Nat.lt_trichotomy i l.length
  · simp [List.getElem?_append_left hlt, hlt.ne]
  · simp [eq_comm]
  · have hbeyond : (l ++ [a])[i]? = none := by
      rw [List.getElem?_eq_none_iff, List.length_append, List.length_singleton]
      exact hgt
    simp [hbeyond, hgt.le, hgt.ne']

/-- What is found after an entry was added was found before, or is the new entry. -/
theorem lookup_of_append {α β γ : Type} [DecidableEq α] [DecidableEq β] {entries : List ((α × β) × γ)}
    {a a' : α} {b b' : β} {x y : γ} (h : (entries ++ [((a, b), x)]).lookup (a', b') = some y) :
    entries.lookup (a', b') = some y ∨ (a' = a ∧ b' = b ∧ y = x ∧ entries.lookup (a, b) = none) := by
  rw [lookup_append_singleton] at h
  obtain hold | ⟨hnone, hadded⟩ := Option.or_eq_some_iff.mp h
  · exact Or.inl hold
  · split at hadded
    · next heq =>
        obtain ⟨rfl, rfl⟩ := Prod.mk.inj heq
        exact Or.inr ⟨rfl, rfl, (Option.some.inj hadded).symm, hnone⟩
    · simp at hadded

namespace Naming

variable {names names' : Naming} {outer scope : Scope} {key : ScopeKey} {keys : Set ScopeKey}

theorem resolve_congr (h : names'.namespaces = names.namespaces) (scope : Scope) (name : String) :
    names'.resolve scope name = names.resolve scope name := by
  have hdef : ∀ scope, names'.defined? scope name = names.defined? scope name := by
    intro scope
    rw [defined?, h, defined?]
  have hfrom : ∀ root chain keys, names'.resolveFrom root chain name keys =
      names.resolveFrom root chain name keys := by
    intro root chain keys
    induction keys with
    | nil => exact hdef _
    | cons key outer ih => rw [resolveFrom, resolveFrom, hdef, ih]
  rw [resolve, resolve, hfrom]

def Scoped (names : Naming) (keys : Set ScopeKey) : Prop :=
  ∀ scope name found, names.defined? scope name = some found → ∀ k ∈ scope.keys, k ∈ keys

/-- The names after a lambda variable has been bound to a new entity. -/
def bound (names : Naming) (scope : Scope) (name entityType : String) : Naming :=
  { names with
    next := names.next + 1
    namespaces := names.namespaces ++ [((scope, name), ⟨⟨names.next⟩, entityType⟩)] }

theorem Scoped.undefined (h : names.Scoped keys) (hkey : key ∉ keys) (outer : Scope) (name : String) :
    names.defined? (outer.enter key) name = none := by
  by_contra hsome
  obtain ⟨found, hfound⟩ := Option.ne_none_iff_exists'.mp hsome
  exact hkey (h _ _ _ hfound key List.mem_cons_self)

theorem Scoped.define (h : names.Scoped keys) (hkey : key ∉ keys) (outer : Scope)
    (name entityType : String) : names.define (outer.enter key) name entityType =
      .ok (⟨names.next⟩, names.bound (outer.enter key) name entityType) := by
  simp only [Naming.define, h.undefined hkey outer name]
  rfl

theorem resolve_enter (names : Naming) (outer : Scope) (key : ScopeKey) (name : String) :
    names.resolve (outer.enter key) name =
      match names.defined? (outer.enter key) name with
      | some found => .ok found
      | none => names.resolve outer name := by
  have hfrom : names.resolveFrom outer.root outer.chain name (key :: outer.keys) =
      match names.defined? (outer.enter key) name with
      | some found => some found
      | none => names.resolveFrom outer.root outer.chain name outer.keys := rfl
  rw [resolve, resolve]
  change (match names.resolveFrom outer.root outer.chain name (key :: outer.keys) with
    | some found => Except.ok found
    | none => Except.error (ScopeError.notBound name)) = _
  rw [hfrom]
  cases names.defined? (outer.enter key) name with
  | some found => rfl
  | none => rfl

variable {entityType lambda : String}

theorem defined?_bound (names : Naming) (scope scope' : Scope) (lambda entityType name : String) :
    (names.bound scope lambda entityType).defined? scope' name =
      (names.defined? scope' name).or
        (if (scope', name) = (scope, lambda) then some ⟨⟨names.next⟩, entityType⟩ else none) :=
  lookup_append_singleton names.namespaces (scope, lambda) (scope', name) _

theorem Scoped.bound (h : names.Scoped keys) (houter : ∀ k ∈ outer.keys, k ∈ keys) :
    (names.bound (outer.enter key) lambda entityType).Scoped (insert key keys) := by
  intro scope name found hfound k hk
  obtain hold | ⟨rfl, -, -, -⟩ := lookup_of_append hfound
  · exact Or.inr (h _ _ _ hold k hk)
  · obtain rfl | hk := List.mem_cons.mp hk
    · exact Or.inl rfl
    · exact Or.inr (houter k hk)

theorem resolve_bound_of_outside (h : ¬ outer.keys <:+ scope.keys) (lambda entityType name : String) :
    (names.bound outer lambda entityType).resolve scope name = names.resolve scope name := by
  have hdef : ∀ root chain ks, ks <:+ scope.keys →
      (names.bound outer lambda entityType).defined? ⟨root, chain, ks⟩ name =
        names.defined? ⟨root, chain, ks⟩ name := by
    intro root chain ks hks
    rw [defined?_bound, if_neg, Option.or_none]
    intro heq
    exact h (congrArg Scope.keys (Prod.mk.inj heq).1 ▸ hks)
  have hfrom : ∀ ks, ks <:+ scope.keys →
      (names.bound outer lambda entityType).resolveFrom scope.root scope.chain name ks =
        names.resolveFrom scope.root scope.chain name ks := by
    intro ks hks
    induction ks with
    | nil => exact hdef _ _ _ hks
    | cons k rest ih =>
        rw [resolveFrom, resolveFrom, hdef _ _ _ hks, ih ((List.suffix_cons k rest).trans hks)]
  rw [resolve, resolve, hfrom scope.keys (List.suffix_refl _)]

theorem resolve_bound_of_known (hkey : key ∉ keys) (hscope : ∀ k ∈ scope.keys, k ∈ keys) (name : String) :
    (names.bound (outer.enter key) lambda entityType).resolve scope name = names.resolve scope name := by
  refine resolve_bound_of_outside (fun hinside => ?_) lambda entityType name
  exact hkey (hscope key (hinside.subset List.mem_cons_self))

theorem Scoped.resolve_bound (h : names.Scoped keys) (hkey : key ∉ keys) (outer : Scope)
    (lambda entityType : String) :
    (names.bound (outer.enter key) lambda entityType).resolve (outer.enter key) lambda =
      .ok ⟨⟨names.next⟩, entityType⟩ := by
  rw [resolve_enter, defined?_bound, h.undefined hkey outer lambda, if_pos rfl]
  rfl

theorem Scoped.resolve_bound_other (h : names.Scoped keys) (hkey : key ∉ keys) (outer : Scope)
    (entityType : String) {name : String} (hname : name ≠ lambda) :
    (names.bound (outer.enter key) lambda entityType).resolve (outer.enter key) name =
      (names.bound (outer.enter key) lambda entityType).resolve outer name := by
  rw [resolve_enter, defined?_bound, h.undefined hkey outer name,
    if_neg (fun heq => hname (Prod.mk.inj heq).2)]
  rfl

end Naming
end EntityGraph
