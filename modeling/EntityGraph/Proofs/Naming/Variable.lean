import EntityGraph.Naming.Basic
import EntityGraph.Proofs.Algebra.Group

/-!
# Numbered variables

Variables with different numbers are different, and the number can be read off the name. All of
them are variables of the query language, and their names without the question mark are different
as well, so that a row shows what a solution binds.
-/
namespace EntityGraph

open Sparql

theorem toList_variableName (k : Nat) :
    (variableName k).toList = '?' :: 'x' :: Nat.toDigits 10 k := by
  simp [variableName, String.toList_append]

def variableNumber (v : String) : Nat := Nat.ofDigitChars 10 (v.toList.drop 2) 0

@[simp] theorem variableNumber_variableName (k : Nat) : variableNumber (variableName k) = k := by
  rw [variableNumber, toList_variableName]
  exact Nat.ofDigitChars_ten_toDigits

theorem variableName_injective {i k : Nat} (h : variableName i = variableName k) : i = k := by
  rw [← variableNumber_variableName i, h, variableNumber_variableName]

@[simp] theorem isVariable_variableName (k : Nat) : isVariable (variableName k) = true := by
  simp [isVariable, toList_variableName]

def unmarked (v : String) : String := String.ofList (v.toList.dropWhile (· = '?'))

theorem unmarked_variableName_injective {i k : Nat}
    (h : unmarked (variableName i) = unmarked (variableName k)) : i = k := by
  apply variableName_injective
  have hlist := congrArg String.toList h
  simp only [unmarked, toList_variableName, String.toList_ofList] at hlist
  apply String.ext
  rw [toList_variableName, toList_variableName]
  simpa using hlist

theorem bound?_ofSolution {μ : Solution} (hμ : ∀ v t, (v, t) ∈ μ → ∃ k, v = variableName k) (k : Nat) :
    (Row.ofSolution μ).bound? (variableName k) = (μ.get? (variableName k)).map Term.text := by
  unfold Row.bound?
  change ((Row.ofSolution μ).lookup (unmarked (variableName k))).map (·.value) = _
  induction μ with
  | nil => rfl
  | cons entry rest ih =>
      obtain ⟨v, t⟩ := entry
      obtain ⟨i, rfl⟩ := hμ v t List.mem_cons_self
      have hrest := ih fun w s hw => hμ w s (List.mem_cons_of_mem _ hw)
      rw [Solution.get?_cons]
      by_cases hik : k = i
      · subst hik
        simp [Row.ofSolution, unmarked]
      · have hne : (unmarked (variableName k) == unmarked (variableName i)) = false := by
          simpa using fun h => hik (unmarked_variableName_injective h)
        have hne' : variableName k ≠ variableName i := fun h => hik (variableName_injective h)
        rw [if_neg hne', ← hrest]
        change (List.lookup _ ((unmarked (variableName i), t.binding) :: Row.ofSolution rest)).map _ = _
        rw [List.lookup_cons, hne]

end EntityGraph
