import EntityGraph.Proofs.Placement.Worded
import EntityGraph.Proofs.Sparql.Tokens

/-!
# Patterns without quotes

The predicates and classes of an accepted schema are prefixed names, and variables are numbered. So
there is no quote in anything that a pattern is made of, nor in the text of the pattern.
-/
namespace EntityGraph

open Sparql (Unquoted)

namespace Name

theorem not_quote_mem {s : List Char} (h : isPrefixPart s = true ∨ isLocalPart s = true) : '"' ∉ s := by
  have hrest : ∀ rest : List Char, rest.all isNameChar = true → '"' ∉ rest := by
    intro rest hall hmem
    have hquote := List.all_eq_true.mp hall _ hmem
    simp [isNameChar] at hquote
  cases s with
  | nil => simp
  | cons c rest =>
      simp only [isPrefixPart, isLocalPart, Bool.and_eq_true] at h
      have hall : rest.all isNameChar = true := h.elim And.right And.right
      intro hmem
      obtain rfl | hmem := List.mem_cons.mp hmem
      · simp [isLetter] at h
      · exact hrest rest hall hmem

theorem unquoted {name used : String} (h : prefixOf? name = some used) : Unquoted name := by
  dsimp only [prefixOf?] at h
  intro hmem
  have hcolon := List.head?_dropWhile_not (fun c => decide (c ≠ ':')) name.toList
  rw [← List.takeWhile_append_dropWhile (p := fun c => decide (c ≠ ':')) (l := name.toList)] at hmem
  split at h
  · next c after hafter =>
      simp only [hafter, List.head?_cons] at hcolon
      split at h
      · next hparts =>
          obtain ⟨hbefore, hlocal⟩ := Bool.and_eq_true_iff.mp hparts
          rw [hafter] at hmem
          obtain hmem | hmem := List.mem_append.mp hmem
          · exact not_quote_mem (Or.inl hbefore) hmem
          · obtain rfl | hmem := List.mem_cons.mp hmem
            · simp at hcolon
            · exact not_quote_mem (Or.inr hlocal) hmem
      · simp at h
  · simp at h

end Name

theorem not_quote_mem_toDigits (k : Nat) : '"' ∉ Nat.toDigits 10 k := by
  intro hmem
  have hdigit := Nat.isDigit_of_mem_toDigits (b := 10) (by omega) (by omega) hmem
  simp at hdigit

theorem unquoted_variableName (k : Nat) : Unquoted (variableName k) := by
  unfold Unquoted
  rw [toList_variableName]
  intro hmem
  have hdigit : '"' ∈ Nat.toDigits 10 k := by simpa using hmem
  exact not_quote_mem_toDigits k hdigit

def Vocabulary.unquoted : Vocabulary := ⟨Unquoted, Unquoted, Unquoted⟩

theorem Vocabulary.unquoted_covers (schema : Schema) : unquoted.Covers schema where
  name := by
    rintro name ⟨used, iri, hused, -⟩
    exact Name.unquoted hused
  var := unquoted_variableName

theorem Sparql.Group.Worded.unquoted_text {group : Group} (h : group.Worded .unquoted) :
    Unquoted group.text := by
  have hmarks : ∀ mark ∈ Sparql.marks, Unquoted mark := by decide
  have hwords := Sparql.Group.forall_words hmarks group fun t ht =>
    (h t ht).imp_right (And.imp_right (Or.elim · id id))
  have hparts : ∀ words : List String, (∀ word ∈ words, Unquoted word) →
    Unquoted (" ".intercalate words) := by
    intro words hall
    induction words with
    | nil => decide
    | cons word rest ih =>
        obtain ⟨hword, hrest⟩ := List.forall_mem_cons.mp hall
        cases rest with
        | nil => rwa [String.intercalate_singleton]
        | cons next more =>
            rw [String.intercalate_cons_cons]
            exact (hword.append (by decide)).append (ih hrest)
  exact hparts group.words hwords

end EntityGraph
