import EntityGraph.Placement.Builtin
import Mathlib.Data.List.Basic
import Mathlib.Tactic.Common

/-!
# Registries of placement rules

A registry is filled rule by rule, each behind or before those it has, and the first rule that applies
places a branch. Of the builtin rules exactly one applies to every branch, so that their order and
their number do not matter, nor do rules behind them, as long as each of them is there.
-/
namespace EntityGraph

/-- One way to add a rule to a registry. -/
inductive Registration where
  | push (rule : Rule)
  | prepend (rule : Rule)

namespace Registration

def rule : Registration → Rule
  | push rule => rule
  | prepend rule => rule

def register (rules : List Rule) : Registration → List Rule
  | push rule => rules ++ [rule]
  | prepend rule => rule :: rules

/-- The registry that is filled in these steps, one after the other. -/
def registry (steps : List Registration) : List Rule := steps.foldl register []

theorem mem_foldl_register {r : Rule} (steps : List Registration) (rules : List Rule) :
    r ∈ steps.foldl register rules ↔ r ∈ rules ∨ r ∈ steps.map rule := by
  induction steps generalizing rules with
  | nil => simp
  | cons step steps ih =>
      have hstep : r ∈ register rules step ↔ r ∈ rules ∨ r = step.rule := by
        cases step with
        | push added => simp [register, rule]
        | prepend added => simp [register, rule, or_comm]
      rw [List.foldl_cons, ih, hstep, List.map_cons, List.mem_cons, or_assoc]

theorem mem_registry {r : Rule} (steps : List Registration) : r ∈ registry steps ↔ r ∈ steps.map rule := by
  simp [registry, mem_foldl_register]

theorem registry_append_push (steps : List Registration) (more : List Rule) :
    registry (steps ++ more.map push) = registry steps ++ more := by
  have hpush : ∀ rules : List Rule, (more.map push).foldl register rules = rules ++ more := by
    induction more with
    | nil => simp
    | cons r more ih => simp [register, ih]
  rw [registry, List.foldl_append, hpush, registry]

end Registration

namespace Rule

def assigned : Branch → Rule
  | .lambda _ _ => inScopeVariable
  | .any _ => anyElement
  | .property p =>
    if p.isComplex then if p.isSingle then singleValuedComplex else multiValuedComplex
    else if p.foreignKey.isSome then foreignKeyElementary
    else if p.isMandatory then if p.isId then elementaryId else mandatoryElementary
    else optionalElementary

theorem assigned_mem (branch : Branch) : assigned branch ∈ builtin := by
  unfold assigned builtin
  repeat' split
  all_goals simp

theorem any_ownValue? (p : PropertyBranch) (q : PropertyBranch → Bool) :
    (ownValue? (.property p)).any q = (!p.isComplex && p.foreignKey.isNone && q p) := by
  cases hown : !p.isComplex && p.foreignKey.isNone <;> simp [ownValue?, hown]

theorem assigned_applies (branch : Branch) : (assigned branch).applies branch = true := by
  cases branch with
  | lambda _ _ => rfl
  | any _ => rfl
  | property p =>
      unfold assigned
      cases hcomplex : p.isComplex with
      | true =>
          cases hsingle : p.isSingle <;> simp [singleValuedComplex, multiValuedComplex, hcomplex, hsingle]
      | false =>
          cases hkey : p.foreignKey with
          | some key => simp [foreignKeyElementary, hcomplex, hkey]
          | none =>
              cases hmandatory : p.isMandatory <;> cases hid : p.isId <;>
                simp [elementaryId, mandatoryElementary, optionalElementary, any_ownValue?, hcomplex, hkey,
                  hmandatory, hid]

theorem eq_assigned {rule : Rule} (hrule : rule ∈ builtin) {branch : Branch}
    (h : rule.applies branch = true) : rule = assigned branch := by
  simp only [builtin, List.mem_cons, List.not_mem_nil, or_false] at hrule
  cases branch with
  | lambda _ _ => obtain rfl | rfl | rfl | rfl | rfl | rfl | rfl | rfl := hrule <;> first | rfl | cases h
  | any _ => obtain rfl | rfl | rfl | rfl | rfl | rfl | rfl | rfl := hrule <;> first | rfl | cases h
  | property p =>
      obtain rfl | rfl | rfl | rfl | rfl | rfl | rfl | rfl := hrule
      all_goals
        simp only [elementaryId, mandatoryElementary, optionalElementary, foreignKeyElementary,
          singleValuedComplex,
          multiValuedComplex, inScopeVariable, anyElement, any_ownValue?, Bool.and_eq_true, Bool.not_eq_true',
          Option.isNone_iff_eq_none, Bool.false_eq_true] at h
      all_goals simp [assigned, h]

theorem choose_of_assigned {rules : List Rule} (hbuiltin : ∀ rule ∈ rules, rule ∈ builtin) {branch : Branch}
    (hmem : assigned branch ∈ rules) (more : List Rule) :
    choose (rules ++ more) branch = .ok (assigned branch) := by
  have hfind : rules.find? (fun rule => rule.applies branch) = some (assigned branch) := by
    cases hfound : rules.find? (fun rule => rule.applies branch) with
    | none => exact absurd (assigned_applies branch) (List.find?_eq_none.mp hfound _ hmem)
    | some rule =>
        have happlies : rule.applies branch = true := by simpa using List.find?_some hfound
        rw [eq_assigned (hbuiltin _ (List.mem_of_find?_eq_some hfound)) happlies]
  rw [choose, List.find?_append, hfind]
  rfl

/-- A registry of the builtin rules assigns every branch as they do, whatever rules are behind them. -/
theorem choose_registry {steps : List Registration} (hbuiltin : ∀ step ∈ steps, step.rule ∈ builtin)
    (hall : ∀ rule ∈ builtin, rule ∈ steps.map Registration.rule) (more : List Rule) :
    choose (Registration.registry steps ++ more) = choose builtin := by
  funext branch
  have hrules : ∀ rule ∈ Registration.registry steps, rule ∈ builtin := by
    intro rule hrule
    obtain ⟨step, hstep, rfl⟩ := List.mem_map.mp ((Registration.mem_registry steps).mp hrule)
    exact hbuiltin step hstep
  have hmem := (Registration.mem_registry steps).mpr (hall _ (assigned_mem branch))
  have hchosen := choose_of_assigned (fun _ => id) (assigned_mem branch) []
  rw [List.append_nil] at hchosen
  rw [choose_of_assigned hrules hmem, hchosen]

end Rule
end EntityGraph
