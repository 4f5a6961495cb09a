import EntityGraph.Filter.Compile
import EntityGraph.Proofs.Number.Shortest

/-!
# Integers in filters

The text of an integer of up to 64 digits is read as the double nearest to it, and this double is written
into the condition as an integer again.
-/
namespace EntityGraph.Filter
open Binary64

variable {s t v U : Nat}

theorem numberText_within (negative : Bool) (hU : Nat.pow 2 1074 = U) (hs : Normal s t) (hv : 0 < v)
    (hvalue : s * Nat.pow 2 t = v * U) :
    ∃ m, 0 < m ∧ Within s t (m * U) ∧
      numberText (.finite negative s t) = .ok (signText negative ++ decimalText m) := by
  have hpos : 0 < U := pos_of_unit hU
  have hintegral : integral? s t = some v := by
    unfold integral?
    rw [hU, hvalue]
    simp only [Nat.mul_mod_left, Nat.mul_div_cancel v hpos, if_true]
  unfold numberText
  simp only [hintegral]
  split
  · refine ⟨v, hv, within_of_eq hvalue, ?_⟩
    rw [decide_eq_true (Nat.ne_of_gt hv), Bool.and_true]
  · obtain ⟨d, i, hd, hwithin, hshortest⟩ := shortest_within hU hs hv hvalue
    refine ⟨d * Nat.pow 10 i, Nat.mul_pos hd (Nat.pow_pos (by decide)), hwithin, ?_⟩
    have hne : s ≠ 0 := Nat.ne_of_gt (lt_of_lt_of_le (by decide) hs.lower)
    rw [plainText, if_neg hne, hshortest, positional_integral hd]

theorem numberText_top (negative : Bool) :
    numberText (.finite negative (Nat.pow 2 52) 1075) =
      .ok (signText negative ++ decimalText (Nat.pow 2 53)) := by
  cases negative <;> decide +kernel

theorem exists_signed (negative : Bool) {m : Nat} (hm : 0 < m) :
    ∃ z : Int, z.natAbs = m ∧ (z < 0 ↔ negative = true) := by
  cases negative with
  | false => exact ⟨m, by omega, by simp⟩
  | true => exact ⟨-m, by omega, by simpa using hm⟩

/-- An integer of up to 64 digits is read as a double, which is written as an integer that is read as the
same double: as itself up to `2 ^ 53`. -/
theorem numberText_read {n : Int} (hn : n.natAbs < Nat.pow 2 64) :
    ∃ (value : Binary64) (m : Int), Binary64.read? (toString n).toList = some value ∧ value.isFinite = true ∧
      numberText value = .ok (toString m) ∧ Binary64.read? (toString m).toList = some value ∧
      (n.natAbs ≤ Nat.pow 2 53 → m = n) := by
  obtain rfl | hne := eq_or_ne n 0
  · exact ⟨.finite false 0 0, 0, by decide +kernel, rfl, by decide +kernel, by decide +kernel, fun _ => rfl⟩
  have hpos : 0 < n.natAbs := Int.natAbs_pos.mpr hne
  have hroom : 4 * Nat.pow 2 64 ≤ Nat.pow 10 39 := by decide
  obtain ⟨U, hU⟩ : ∃ U, Nat.pow 2 1074 = U := ⟨_, rfl⟩
  obtain ⟨s, t, v, hs, hwithin, hvalue, hsmall⟩ := exists_near hU hpos hn (by decide) (by decide)
  have hunit := pos_of_unit hU
  have hv := hwithin.bounds hs hunit hvalue
  obtain ⟨m, hm, hmwithin, htext⟩ := numberText_within (n < 0) hU hs (by omega) hvalue
  have hm' := hmwithin.bounds hs hunit hvalue
  have hread := read?_of_within hU hs hne (by omega) hwithin
  by_cases hle : n.natAbs ≤ Nat.pow 2 53
  · refine ⟨_, n, hread, rfl, ?_, hread, fun _ => rfl⟩
    rw [toString_int]
    -- no other integer is rounded to the double, or it is `2 ^ 53`, to which the next one is rounded
    obtain ⟨rfl, ht | ⟨rfl, rfl, htop⟩⟩ := hsmall hle
    · rw [htext, hmwithin.eq_of_le hvalue ((pow_two_le ht).trans_eq hU)]
    · rw [htop]
      exact numberText_top _
  · obtain ⟨z, hz, hsign⟩ := exists_signed (decide (n < 0)) hm
    have hzneg : decide (z < 0) = decide (n < 0) := Bool.eq_iff_iff.mpr (decide_eq_true_iff.trans hsign)
    refine ⟨_, z, hread, rfl, ?_, ?_, fun h => absurd h hle⟩
    · rw [toString_int, hz, hzneg, htext]
    · rw [← hzneg]
      exact read?_of_within hU hs (by omega) (by omega) (hz ▸ hmwithin)

end EntityGraph.Filter
