import EntityGraph.Filter.Expr
import Mathlib.Tactic.Common

/-!
# Renaming lambda variables

Two filters that differ only in the names of their bound variables mean the same. Which variables
correspond to each other is kept in a list of pairs, innermost first, so that an inner variable shadows
an outer one on either side. Renaming the variable of one `any`, to a name that its predicate does not
use, gives a filter of this kind.
-/
namespace EntityGraph

/-- The names stand for the same, where `pairs` are the corresponding bound variables: they are bound at
the same place, or they are the same name and free. -/
def Corresponds : List (String × String) → String → String → Prop
  | [], name, name' => name = name'
  | (bound, bound') :: pairs, name, name' =>
    (name = bound ∧ name' = bound') ∨ (name ≠ bound ∧ name' ≠ bound' ∧ Corresponds pairs name name')

theorem Corresponds.free (name : String) : Corresponds [] name name := rfl

theorem Corresponds.head (name name' : String) (pairs : List (String × String)) :
    Corresponds ((name, name') :: pairs) name name' := Or.inl ⟨rfl, rfl⟩

theorem Corresponds.unique {pairs : List (String × String)} {name name' other other' : String}
    (h : Corresponds pairs name name') (h' : Corresponds pairs other other') :
    name = other ↔ name' = other' := by
  induction pairs with
  | nil =>
      obtain rfl : name = name' := h
      obtain rfl : other = other' := h'
      exact Iff.rfl
  | cons pair pairs ih =>
      obtain ⟨bound, bound'⟩ := pair
      obtain ⟨rfl, rfl⟩ | ⟨hne, hne', h⟩ := h
      · obtain ⟨rfl, rfl⟩ | ⟨hne, hne', -⟩ := h'
        · exact ⟨fun _ => rfl, fun _ => rfl⟩
        · exact ⟨fun heq => absurd heq.symm hne, fun heq => absurd heq.symm hne'⟩
      · obtain ⟨rfl, rfl⟩ | ⟨-, -, h'⟩ := h'
        · exact ⟨fun heq => absurd heq hne, fun heq => absurd heq hne'⟩
        · exact ih h h'

namespace Filter

/-- The paths start with names that stand for the same, and go on in the same way. -/
inductive SamePath (pairs : List (String × String)) : List String → List String → Prop
  | nil : SamePath pairs [] []
  | cons {name name' : String} {rest : List String} (h : Corresponds pairs name name') :
      SamePath pairs (name :: rest) (name' :: rest)

/-- The filters are the same up to the names of bound variables. -/
inductive Alpha : List (String × String) → Filter → Filter → Prop
  | string {pairs : List (String × String)} (value : String) : Alpha pairs (string value) (string value)
  | number {pairs : List (String × String)} (value : Binary64) : Alpha pairs (number value) (number value)
  | boolean {pairs : List (String × String)} (value : Bool) : Alpha pairs (boolean value) (boolean value)
  | null {pairs : List (String × String)} : Alpha pairs null null
  | and {pairs : List (String × String)} {left left' right right' : Filter} (hl : Alpha pairs left left')
      (hr : Alpha pairs right right') : Alpha pairs (and left right) (and left' right')
  | or {pairs : List (String × String)} {left left' right right' : Filter} (hl : Alpha pairs left left')
      (hr : Alpha pairs right right') : Alpha pairs (or left right) (or left' right')
  | eq {pairs : List (String × String)} {left left' right right' : Filter} (hl : Alpha pairs left left')
      (hr : Alpha pairs right right') : Alpha pairs (eq left right) (eq left' right')
  | parentheses {pairs : List (String × String)} {inner inner' : Filter} (h : Alpha pairs inner inner') :
      Alpha pairs (parentheses inner) (parentheses inner')
  | property {pairs : List (String × String)} {path path' : List String} (h : SamePath pairs path path') :
      Alpha pairs (property path) (property path')
  | any {pairs : List (String × String)} {path path' : List String} {lambda lambda' : String}
      {predicate predicate' : Filter} (hpath : SamePath pairs path path')
      (h : Alpha ((lambda, lambda') :: pairs) predicate predicate') :
      Alpha pairs (any path lambda predicate) (any path' lambda' predicate')

def renamePath (v w : String) : List String → List String
  | [] => []
  | name :: rest => (if name = v then w else name) :: rest

/-- Replace the variable `v` by `w` wherever it is not bound again. -/
def rename (v w : String) : Filter → Filter
  | string value => string value
  | number value => number value
  | boolean value => boolean value
  | null => null
  | and left right => and (left.rename v w) (right.rename v w)
  | or left right => or (left.rename v w) (right.rename v w)
  | eq left right => eq (left.rename v w) (right.rename v w)
  | parentheses inner => parentheses (inner.rename v w)
  | property path => property (renamePath v w path)
  | any path lambda predicate =>
    any (renamePath v w path) lambda (if lambda = v then predicate else predicate.rename v w)

/-- All names with which paths start, and all bound variables, satisfy `P`. -/
def Names (P : String → Prop) : Filter → Prop
  | string _ => True
  | number _ => True
  | boolean _ => True
  | null => True
  | and left right => left.Names P ∧ right.Names P
  | or left right => left.Names P ∧ right.Names P
  | eq left right => left.Names P ∧ right.Names P
  | parentheses inner => inner.Names P
  | property path => ∀ name ∈ path.head?, P name
  | any path lambda predicate => (∀ name ∈ path.head?, P name) ∧ P lambda ∧ predicate.Names P

/-- The second filter is the first one with the variable of one `any` renamed to a name that occurs in its
predicate neither at the start of a path nor as a bound variable. -/
inductive Renamed : Filter → Filter → Prop
  | here {path : List String} {v w : String} {predicate : Filter} (h : predicate.Names (· ≠ w)) :
      Renamed (any path v predicate) (any path w (predicate.rename v w))
  | andLeft {left left' right : Filter} (h : Renamed left left') : Renamed (and left right) (and left' right)
  | andRight {left right right' : Filter} (h : Renamed right right') :
      Renamed (and left right) (and left right')
  | orLeft {left left' right : Filter} (h : Renamed left left') : Renamed (or left right) (or left' right)
  | orRight {left right right' : Filter} (h : Renamed right right') : Renamed (or left right) (or left right')
  | eqLeft {left left' right : Filter} (h : Renamed left left') : Renamed (eq left right) (eq left' right)
  | eqRight {left right right' : Filter} (h : Renamed right right') : Renamed (eq left right) (eq left right')
  | parentheses {inner inner' : Filter} (h : Renamed inner inner') :
      Renamed (parentheses inner) (parentheses inner')
  | inside {path : List String} {lambda : String} {predicate predicate' : Filter}
      (h : Renamed predicate predicate') : Renamed (any path lambda predicate) (any path lambda predicate')

section Alpha

variable {pairs : List (String × String)} {P : String → Prop} {f f' : Filter} {path : List String}

theorem samePath_self (h : ∀ name, P name → Corresponds pairs name name)
    (hpath : ∀ name ∈ path.head?, P name) : SamePath pairs path path := by
  cases path with
  | nil => exact .nil
  | cons name rest => exact .cons (h name (hpath name rfl))

theorem corresponds_cons_self (h : ∀ name, P name → Corresponds pairs name name) (bound : String) :
    ∀ name, P name → Corresponds ((bound, bound) :: pairs) name name := by
  intro name hname
  by_cases hbound : name = bound
  · exact Or.inl ⟨hbound, hbound⟩
  · exact Or.inr ⟨hbound, hbound, h name hname⟩

theorem alpha_self (h : ∀ name, P name → Corresponds pairs name name) (hf : f.Names P) : Alpha pairs f f := by
  induction f generalizing pairs with
  | string value => exact .string value
  | number value => exact .number value
  | boolean value => exact .boolean value
  | null => exact .null
  | and left right ihl ihr => exact .and (ihl h hf.1) (ihr h hf.2)
  | or left right ihl ihr => exact .or (ihl h hf.1) (ihr h hf.2)
  | eq left right ihl ihr => exact .eq (ihl h hf.1) (ihr h hf.2)
  | parentheses inner ih => exact .parentheses (ih h hf)
  | property path => exact .property (samePath_self h hf)
  | any path lambda predicate ih =>
      exact .any (samePath_self h hf.1) (ih (corresponds_cons_self h lambda) hf.2.2)

theorem names_true (f : Filter) : f.Names fun _ => True := by
  induction f with
  | and left right ihl ihr => exact ⟨ihl, ihr⟩
  | or left right ihl ihr => exact ⟨ihl, ihr⟩
  | eq left right ihl ihr => exact ⟨ihl, ihr⟩
  | parentheses inner ih => exact ih
  | property path => exact fun _ _ => trivial
  | any path lambda predicate ih => exact ⟨fun _ _ => trivial, trivial, ih⟩
  | _ => trivial

theorem alpha_refl (h : ∀ name, Corresponds pairs name name) (f : Filter) : Alpha pairs f f :=
  alpha_self (P := fun _ => True) (fun name _ => h name) f.names_true

theorem samePath_rename {v w : String}
    (h : ∀ name, name ≠ w → Corresponds pairs name (if name = v then w else name))
    (hpath : ∀ name ∈ path.head?, name ≠ w) : SamePath pairs path (renamePath v w path) := by
  cases path with
  | nil => exact .nil
  | cons name rest => exact .cons (h name (hpath name rfl))

/-- Replacing a variable gives the same filter, where the old and the new name correspond. -/
theorem alpha_rename {v w : String}
    (h : ∀ name, name ≠ w → Corresponds pairs name (if name = v then w else name)) (hf : f.Names (· ≠ w)) :
    Alpha pairs f (f.rename v w) := by
  induction f generalizing pairs with
  | string value => exact .string value
  | number value => exact .number value
  | boolean value => exact .boolean value
  | null => exact .null
  | and left right ihl ihr => exact .and (ihl h hf.1) (ihr h hf.2)
  | or left right ihl ihr => exact .or (ihl h hf.1) (ihr h hf.2)
  | eq left right ihl ihr => exact .eq (ihl h hf.1) (ihr h hf.2)
  | parentheses inner ih => exact .parentheses (ih h hf)
  | property path => exact .property (samePath_rename h hf)
  | any path lambda predicate ih =>
      obtain ⟨hpath, hlambda, hpredicate⟩ := hf
      refine .any (samePath_rename h hpath) ?_
      by_cases hv : lambda = v
      · -- bound again: nothing is replaced below
        rw [if_pos hv]
        refine alpha_self (P := (· ≠ w)) (fun name hname => ?_) hpredicate
        by_cases hbound : name = lambda
        · exact Or.inl ⟨hbound, hbound⟩
        · have hfree := h name hname
          rw [if_neg fun heq => hbound (heq.trans hv.symm)] at hfree
          exact Or.inr ⟨hbound, hbound, hfree⟩
      · rw [if_neg hv]
        refine ih (fun name hname => ?_) hpredicate
        by_cases hbound : name = lambda
        · rw [if_neg fun heq => hv (hbound.symm.trans heq)]
          exact Or.inl ⟨hbound, hbound⟩
        · refine Or.inr ⟨hbound, ?_, h name hname⟩
          split
          · exact hlambda.symm
          · exact hbound

/-- Renaming the variable of one `any` gives the same filter up to the names of bound variables. -/
theorem Renamed.alpha (hr : f.Renamed f') (h : ∀ name, Corresponds pairs name name) : Alpha pairs f f' := by
  have hbound : ∀ {pairs : List (String × String)} (lambda : String), (∀ name, Corresponds pairs name name) →
      ∀ name, Corresponds ((lambda, lambda) :: pairs) name name := fun lambda h name =>
    corresponds_cons_self (P := fun _ => True) (fun name _ => h name) lambda name trivial
  induction hr generalizing pairs with
  | @here path v w predicate havoids =>
      refine .any (samePath_self (P := fun _ => True) (fun name _ => h name) fun _ _ => trivial) ?_
      refine alpha_rename (fun name hname => ?_) havoids
      by_cases hv : name = v
      · rw [if_pos hv]
        exact Or.inl ⟨hv, rfl⟩
      · rw [if_neg hv]
        exact Or.inr ⟨hv, hname, h name⟩
  | andLeft _ ih => exact .and (ih h) (alpha_refl h _)
  | andRight _ ih => exact .and (alpha_refl h _) (ih h)
  | orLeft _ ih => exact .or (ih h) (alpha_refl h _)
  | orRight _ ih => exact .or (alpha_refl h _) (ih h)
  | eqLeft _ ih => exact .eq (ih h) (alpha_refl h _)
  | eqRight _ ih => exact .eq (alpha_refl h _) (ih h)
  | parentheses _ ih => exact .parentheses (ih h)
  | inside _ ih =>
      exact .any (samePath_self (P := fun _ => True) (fun name _ => h name) fun _ _ => trivial)
        (ih (hbound _ h))

end Alpha
end Filter
end EntityGraph
