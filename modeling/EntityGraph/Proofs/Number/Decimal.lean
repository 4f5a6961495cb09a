import EntityGraph.Number.Notation
import EntityGraph.Number.Reading
import Mathlib.Data.List.TakeWhile
import Mathlib.Tactic.Common

/-!
# Integers as numerals

The decimal text of an integer is read as the double nearest to it, and a numeral without a fraction is
written as the decimal text of the integer that it stands for.
-/
namespace EntityGraph.Binary64

theorem readDigits_eq (value : Nat) (s : List Char) : readDigits value s = Nat.ofDigitChars 10 s value := by
  induction s generalizing value with
  | nil => rfl
  | cons c s ih => exact (ih _).trans Nat.ofDigitChars_cons.symm

theorem isDigit_toDigits {c : Char} {n : Nat} (h : c ∈ Nat.toDigits 10 n) : c.isDigit = true :=
  Nat.isDigit_of_mem_toDigits (by decide) (by decide) h

theorem readUnsigned?_toDigits (negative : Bool) (n : Nat) :
    readUnsigned? negative (Nat.toDigits 10 n) = some (ofDecimal negative n 0) := by
  have hdigits : ∀ c ∈ Nat.toDigits 10 n, c.isDigit = true := fun _ => isDigit_toDigits
  have hvalue : readDigits 0 (Nat.toDigits 10 n) = n := by rw [readDigits_eq, Nat.ofDigitChars_ten_toDigits]
  simp [readUnsigned?, List.takeWhile_eq_self_iff.mpr hdigits, List.dropWhile_eq_nil_iff.mpr hdigits,
    Nat.toDigits_ne_nil, hvalue]

theorem readMagnitude?_toDigits (negative : Bool) (n : Nat) :
    readMagnitude? negative (Nat.toDigits 10 n) = some (ofDecimal negative n 0) := by
  have hword : ∀ word : String, (∃ c ∈ word.toList, c.isDigit = false) →
      String.ofList ((Nat.toDigits 10 n).map Char.toLower) ≠ word := by
    rintro _ ⟨c, hc, hnot⟩ rfl
    obtain ⟨d, hd, rfl⟩ := List.mem_map.mp (String.toList_ofList ▸ hc)
    have hdigit := isDigit_toDigits hd
    have hlower : d.toLower = d := by
      unfold Char.toLower
      rw [dif_neg]
      rintro ⟨hletter, -⟩
      have hge : 'A'.toNat ≤ d.toNat := UInt32.le_iff_toNat_le.mp hletter
      exact absurd (hge.trans (Char.isDigit_iff_toNat.mp hdigit).2) (by decide)
    rw [hlower, hdigit] at hnot
    cases hnot
  unfold readMagnitude?
  rw [if_neg, if_neg, readUnsigned?_toDigits]
  · exact hword _ ⟨'n', by decide, rfl⟩
  · exact not_or.mpr ⟨hword _ ⟨'i', by decide, rfl⟩, hword _ ⟨'i', by decide, rfl⟩⟩

theorem toString_int (n : Int) : toString n = signText (n < 0) ++ decimalText n.natAbs := by
  cases n with
  | ofNat n =>
      have hn : ¬ (Int.ofNat n < 0) := by simp
      rw [decide_eq_false hn]
      simp [Int.toString_eq_repr, Int.repr, signText, decimalText, Nat.repr_eq_ofList_toDigits]
  | negSucc n =>
      rw [decide_eq_true (Int.negSucc_lt_zero n)]
      simp [Int.toString_eq_repr, Int.repr, signText, decimalText, Nat.repr_eq_ofList_toDigits]

theorem read?_toString (n : Int) : read? (toString n).toList = some (ofDecimal (n < 0) n.natAbs 0) := by
  rw [toString_int, String.toList_append, decimalText, String.toList_ofList, ← readMagnitude?_toDigits]
  by_cases hn : n < 0
  · rw [decide_eq_true hn]
    rfl
  · rw [decide_eq_false hn]
    have hfirst : ∀ c ∈ Nat.toDigits 10 n.natAbs, c ≠ '-' ∧ c ≠ '+' := by
      intro c hc
      have hdigit := isDigit_toDigits hc
      constructor <;> rintro rfl <;> simp at hdigit
    change read? (Nat.toDigits 10 n.natAbs) = _
    unfold read?
    split
    · next heq => exact absurd rfl (hfirst _ (heq ▸ List.mem_cons_self)).1
    · next heq => exact absurd rfl (hfirst _ (heq ▸ List.mem_cons_self)).2
    · rfl

theorem toDigits_mul_pow {n : Nat} (hn : 0 < n) (k : Nat) :
    Nat.toDigits 10 (n * Nat.pow 10 k) = Nat.toDigits 10 n ++ List.replicate k '0' := by
  induction k with
  | zero => simp
  | succ k ih =>
      have hpos : 0 < n * Nat.pow 10 k := Nat.mul_pos hn (Nat.pow_pos (by decide))
      have hnext : n * Nat.pow 10 (k + 1) = 10 * (n * Nat.pow 10 k) + 0 :=
        (congrArg (n * ·) Nat.pow_succ').trans (Nat.mul_left_comm n 10 (Nat.pow 10 k))
      rw [hnext, ← Nat.toDigits_append_toDigits (by decide) hpos (by decide), ih, Nat.toDigits_zero,
        List.replicate_succ', List.append_assoc]

theorem positional_integral {n : Nat} (hn : 0 < n) (k : Nat) :
    positional ⟨n, k⟩ = decimalText (n * Nat.pow 10 k) := by
  rw [decimalText, toDigits_mul_pow hn, positional, if_pos (Int.natCast_nonneg k), Int.toNat_natCast]

end EntityGraph.Binary64
