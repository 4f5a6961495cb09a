import EntityGraph.Proofs.Number.Decimal
import EntityGraph.Proofs.Number.Grids

/-!
# The shortest numerals of integers

A double that is an integer has a shortest numeral that is an integer, too, and that is rounded to the double
again. Where the digits of a double are worth one or less, it is the same integer.
-/
namespace EntityGraph.Binary64

variable {s t v U : Nat}

theorem within_iff {x : Nat} (hs : Normal s t) : Within s t x ↔
    if s % 2 = 0 then (interval s t).1 ≤ 4 * x ∧ 4 * x ≤ (interval s t).2.2
    else (interval s t).1 < 4 * x ∧ 4 * x < (interval s t).2.2 := by
  have hu := pow_two_pos t
  have hbelow := below_le s t
  have hvalue : Nat.pow 2 t ≤ s * Nat.pow 2 t :=
    Nat.le_mul_of_pos_left _ (lt_of_lt_of_le (by decide) hs.lower)
  simp only [interval_eq]
  split
  · exact ⟨fun ⟨hlower, hupper, _⟩ => by omega, fun ⟨hlower, hupper⟩ => ⟨by omega, by omega, fun _ => ‹_›⟩⟩
  · exact ⟨fun ⟨hlower, hupper, heven⟩ => by omega,
      fun ⟨hlower, hupper⟩ => ⟨by omega, by omega, fun h => by omega⟩⟩

theorem gridPoint?_cases (hU : Nat.pow 2 1074 = U) (hs : Normal s t) (j : Nat) :
    (∃ d, 0 < d ∧ Within s t (d * Nat.pow 10 j * U) ∧ gridPoint? s t j = some ⟨d, j⟩) ∨
      (∀ d, 4 * (s * Nat.pow 2 t) / (4 * Nat.pow 10 j * U) = d → 0 < d →
        ¬ Within s t (d * Nat.pow 10 j * U)) ∧ gridPoint? s t j = none := by
  have hpower : powerOfTen (j : Int) = (Nat.pow 10 j, 1) := by
    simp only [powerOfTen, Int.natCast_nonneg, if_true, Int.toNat_natCast]
  have hinside (d : Nat) :
      (if s % 2 = 0 then
          decide ((interval s t).1 ≤ d * (4 * Nat.pow 10 j * U)) &&
            decide (d * (4 * Nat.pow 10 j * U) ≤ (interval s t).2.2)
        else decide ((interval s t).1 < d * (4 * Nat.pow 10 j * U)) &&
          decide (d * (4 * Nat.pow 10 j * U) < (interval s t).2.2)) = true ↔
            Within s t (d * Nat.pow 10 j * U) := by
    have hpoint : d * (4 * Nat.pow 10 j * U) = 4 * (d * Nat.pow 10 j * U) := by
      rw [Nat.mul_assoc, Nat.mul_left_comm, Nat.mul_assoc]
    rw [within_iff hs, hpoint]
    split <;> simp only [Bool.and_eq_true, decide_eq_true_eq]
  have hvalue : (interval s t).2.1 = 4 * (s * Nat.pow 2 t) := by rw [interval_eq]
  unfold gridPoint?
  rw [hU, hpower]
  simp only [Nat.mul_one, hvalue]
  split
  · next hdown hup =>
      rw [Bool.and_eq_true, hinside, decide_eq_true_eq] at hdown
      rw [hinside] at hup
      split
      · exact .inl ⟨_, hdown.2, hdown.1, rfl⟩
      · exact .inl ⟨_, Nat.succ_pos _, hup, rfl⟩
  · next hdown _ =>
      rw [Bool.and_eq_true, hinside, decide_eq_true_eq] at hdown
      exact .inl ⟨_, hdown.2, hdown.1, rfl⟩
  · next _ hup =>
      rw [hinside] at hup
      exact .inl ⟨_, Nat.succ_pos _, hup, rfl⟩
  · next hdown _ =>
      refine .inr ⟨?_, rfl⟩
      rintro d rfl hpos hwithin
      rw [Bool.and_eq_false_iff, decide_eq_false_iff_not] at hdown
      exact hdown.elim (fun h => absurd ((hinside _).mpr hwithin) (by rw [h]; decide)) fun h => h hpos

theorem gridPoint?_zero (hU : Nat.pow 2 1074 = U) (hs : Normal s t) (hv : 0 < v)
    (hvalue : s * Nat.pow 2 t = v * U) : gridPoint? s t 0 ≠ none := by
  obtain ⟨d, -, -, hgrid⟩ | ⟨hnot, -⟩ := gridPoint?_cases hU hs 0
  · exact ne_of_eq_of_ne hgrid (by simp)
  · have hdown : 4 * (s * Nat.pow 2 t) / (4 * Nat.pow 10 0 * U) = v := by
      rw [hvalue, Nat.mul_left_comm]
      exact Nat.mul_div_cancel v (Nat.mul_pos (by decide) (pos_of_unit hU))
    have hpoint : s * Nat.pow 2 t = v * Nat.pow 10 0 * U := by
      calc s * Nat.pow 2 t = v * U := hvalue
        _ = v * Nat.pow 10 0 * U := congrArg (· * U) (Nat.mul_one v).symm
    exact absurd (within_of_eq hpoint) (hnot v hdown hv)

/-- The shortest numeral of an integer is an integer of the same interval. -/
theorem shortest_within (hU : Nat.pow 2 1074 = U) (hs : Normal s t) (hv : 0 < v)
    (hvalue : s * Nat.pow 2 t = v * U) :
    ∃ d i : Nat, 0 < d ∧ Within s t (d * Nat.pow 10 i * U) ∧ shortest s t = ⟨d, i⟩ := by
  have hupper : s < Nat.pow 2 53 := (pow_two_succ 52).symm ▸ hs.upper
  obtain ⟨e, hgrid, hcoarser⟩ := gridPoint?_shortest (lt_of_lt_of_le (by decide) hs.lower) hupper t
  have he : 0 ≤ e := by
    by_contra hneg
    exact gridPoint?_zero hU hs hv hvalue (hcoarser 0 (Int.not_le.mp hneg))
  obtain ⟨j, rfl⟩ := Int.eq_ofNat_of_zero_le he
  obtain ⟨d, hd, hwithin, hpoint⟩ | ⟨-, hnone⟩ := gridPoint?_cases hU hs j
  · exact ⟨d, j, hd, hwithin, Option.some.inj (hgrid.symm.trans hpoint)⟩
  · cases hgrid.symm.trans hnone

theorem Within.eq_of_le {n : Nat} (hvalue : s * Nat.pow 2 t = v * U) (hle : Nat.pow 2 t ≤ U)
    (h : Within s t (n * U)) : n = v := by
  have hu := pow_two_pos t
  have hbelow := below_le s t
  obtain ⟨hlower, hupper, -⟩ := h
  rw [hvalue] at hlower hupper
  obtain hlt | heq | hgt := Nat.lt_trichotomy n v
  · have := mul_add_le hlt U
    omega
  · exact heq
  · have := mul_add_le hgt U
    omega

theorem Within.bounds {n : Nat} (hs : Normal s t) (hU : 0 < U) (hvalue : s * Nat.pow 2 t = v * U)
    (h : Within s t (n * U)) : n ≤ 2 * v ∧ v ≤ 2 * n := by
  have hbelow := below_le s t
  have hunit : Nat.pow 2 t ≤ v * U :=
    hvalue ▸ Nat.le_mul_of_pos_left _ (lt_of_lt_of_le (by decide) hs.lower)
  obtain ⟨hlower, hupper, -⟩ := h
  rw [hvalue] at hlower hupper
  constructor
  · exact Nat.le_of_mul_le_mul_right (by rw [Nat.mul_assoc]; omega) hU
  · exact Nat.le_of_mul_le_mul_right (by rw [Nat.mul_assoc]; omega) hU

theorem ofDecimal_integral (negative : Bool) {n : Nat} (hn : 0 < n) (hle : n < Nat.pow 10 39) :
    ofDecimal negative n 0 = round negative n 1 := by
  have hdigits : digitCount n ≤ 39 := (digitCount_le_iff (by decide)).mpr hle
  unfold ofDecimal
  rw [if_neg (by omega), if_neg (by omega), if_neg (by omega), if_pos (by omega)]
  exact congrArg (round negative · 1) (Nat.mul_one n)

theorem read?_of_within {n : Int} (hU : Nat.pow 2 1074 = U) (hs : Normal s t) (hn : n ≠ 0)
    (hle : n.natAbs < Nat.pow 10 39) (h : Within s t (n.natAbs * U)) :
    read? (toString n).toList = some (.finite (n < 0) s t) := by
  rw [read?_toString, ofDecimal_integral _ (Int.natAbs_pos.mpr hn) hle, round_eq_roundUnits, hU,
    roundUnits_of_within _ hs h]

end EntityGraph.Binary64
