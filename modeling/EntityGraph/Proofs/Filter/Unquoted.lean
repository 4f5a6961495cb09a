import EntityGraph.Proofs.Filter.Worded
import EntityGraph.Proofs.Placement.Unquoted
import EntityGraph.Proofs.Sparql.Expression

/-!
# Conditions without quotes of their own

The condition that a filter is compiled to has quotes around its strings only: numerals are digits with
a sign and a point, variables are numbered, and the patterns of `any` are patterns of the schema. Its
strings are those of the filter, each of them once and in the same order.
-/
namespace EntityGraph

open Sparql (Unquoted isNumeral isUnsigned isNumeral_of_isUnsigned isUnsigned_digits isUnsigned_point
  isToken_of_isNumeral)

theorem Sparql.Clause.Worded.unquoted {c : Clause} (h : c.Worded .unquoted) : c.Unquoted := by
  induction c with
  | string value => trivial
  | number text => exact h
  | boolean value => trivial
  | var name => exact h
  | and left right ihl ihr => exact ⟨ihl h.1, ihr h.2⟩
  | or left right ihl ihr => exact ⟨ihl h.1, ihr h.2⟩
  | equal left right ihl ihr => exact ⟨ihl h.1, ihr h.2⟩
  | not inner ih => exact ih h
  | bound name => exact h
  | existing group condition ih => exact ⟨h.1.unquoted_text, ih h.2⟩

namespace Binary64

variable {text : String}

theorem isNumeral_signText (negative : Bool) (h : isUnsigned text.toList = true) :
    isNumeral (signText negative ++ text) = true := by
  cases negative with
  | true => exact (isNumeral_of_isUnsigned h).2
  | false => simpa [signText] using (isNumeral_of_isUnsigned h).1

theorem isDigit_of_mem_toDigits (n : Nat) : ∀ c ∈ Nat.toDigits 10 n, c.isDigit = true :=
  fun _ => Nat.isDigit_of_mem_toDigits (by omega) (by omega)

theorem isUnsigned_decimalText (n : Nat) : isUnsigned (decimalText n).toList = true := by
  rw [decimalText, String.toList_ofList]
  exact isUnsigned_digits Nat.toDigits_ne_nil (isDigit_of_mem_toDigits n)

theorem isUnsigned_positional (numeral : Numeral) : isUnsigned (positional numeral).toList = true := by
  have hdigits := isDigit_of_mem_toDigits numeral.digits
  have hne : Nat.toDigits 10 numeral.digits ≠ [] := Nat.toDigits_ne_nil
  have hzeros : ∀ n, ∀ c ∈ List.replicate n '0', c.isDigit = true := by
    intro n c hc
    rw [List.eq_of_mem_replicate hc]
    decide
  dsimp only [positional]
  split
  · rw [String.toList_ofList]
    exact isUnsigned_digits (by simp [hne]) (List.forall_mem_append.mpr ⟨hdigits, hzeros _⟩)
  · split
    · next hexponent hplaces =>
        rw [String.toList_ofList]
        refine isUnsigned_point (fun c hc => hdigits c (List.mem_of_mem_take hc)) ?_
          fun c hc => hdigits c (List.mem_of_mem_drop hc)
        intro hnil
        have := List.drop_eq_nil_iff.mp hnil
        omega
    · rw [String.toList_ofList]
      have hzero : ∀ c ∈ ['0'], c.isDigit = true := List.forall_mem_singleton.mpr rfl
      exact isUnsigned_point hzero (by simp [hne]) (List.forall_mem_append.mpr ⟨hzeros _, hdigits⟩)

theorem isNumeral_plainText_finite (negative : Bool) (significand shift : Nat) :
    isNumeral (finite negative significand shift).plainText = true := by
  simp only [plainText]
  split
  · exact isNumeral_signText negative (by decide)
  · exact isNumeral_signText negative (isUnsigned_positional _)

end Binary64

namespace Filter

theorem isNumeral_numberText {value : Binary64} {text : String} (h : numberText value = .ok text) :
    isNumeral text = true := by
  unfold numberText at h
  split at h
  · next negative significand shift =>
      have hplain := Binary64.isNumeral_plainText_finite negative significand shift
      split at h
      · split at h
        · obtain rfl := Except.ok.inj h
          exact Binary64.isNumeral_signText _ (Binary64.isUnsigned_decimalText _)
        · obtain rfl := Except.ok.inj h
          exact hplain
      · obtain rfl := Except.ok.inj h
        exact hplain
  · simp at h

theorem unquoted_numberText {value : Binary64} {text : String} (h : numberText value = .ok text) :
    Unquoted text :=
  (isToken_of_isNumeral (isNumeral_numberText h)).unquoted

end Filter
end EntityGraph
