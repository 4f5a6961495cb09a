import EntityGraph.Proofs.Number.Rounding
import Mathlib.Algebra.Order.Field.Power
import Mathlib.Data.Rat.Cast.Order
import Mathlib.Tactic.GCongr
import Mathlib.Tactic.Linarith
import Mathlib.Tactic.NormNum
import Mathlib.Tactic.Positivity
import Mathlib.Tactic.Ring

/-!
# The search for a grid

The decimal grids from that of the leading digit down to one whose steps are less than half a unit of the
significand are searched for a point in the interval. Coarser grids have none, and the finest one has one
above the value, so that the search ends: the numeral of every finite double other than zero is a point of
the coarsest grid that has one.
-/
namespace EntityGraph.Binary64

variable {s t U : Nat} {e : Int}

theorem pos_of_unit {k : Nat} (hU : Nat.pow 2 k = U) : 0 < U := hU ▸ pow_two_pos k

theorem powerOfTen_pos (e : Int) : 0 < (powerOfTen e).1 ∧ 0 < (powerOfTen e).2 := by
  have hpower (n : Nat) : 0 < Nat.pow 10 n := Nat.pow_pos (by decide)
  unfold powerOfTen
  split
  · exact ⟨hpower _, Nat.one_pos⟩
  · exact ⟨Nat.one_pos, hpower _⟩

theorem powerOfTen_fst (e : Int) : ((powerOfTen e).1 : ℚ) = 10 ^ e * (powerOfTen e).2 := by
  unfold powerOfTen
  by_cases he : 0 ≤ e
  · obtain ⟨n, rfl⟩ := Int.eq_ofNat_of_zero_le he
    simp
  · obtain ⟨n, hn⟩ : ∃ n : Nat, e = -(n : Int) := ⟨(-e).toNat, by omega⟩
    subst hn
    rw [if_neg he]
    simp

theorem step_eq (e : Int) (U : Nat) :
    ((4 * (powerOfTen e).1 * U : Nat) : ℚ) = 4 * 10 ^ e * U * (powerOfTen e).2 := by
  push_cast
  rw [powerOfTen_fst]
  ring

theorem step_lt_iff {x : Nat} : 4 * (powerOfTen e).1 * U < x * (powerOfTen e).2 ↔
    4 * (10 : ℚ) ^ e * U < x := by
  have hden : (0 : ℚ) < (powerOfTen e).2 := by exact_mod_cast (powerOfTen_pos e).2
  rw [← Nat.cast_lt (α := ℚ), step_eq, Nat.cast_mul]
  exact mul_lt_mul_iff_of_pos_right hden

theorem lt_step_iff {x : Nat} : x * (powerOfTen e).2 < 4 * (powerOfTen e).1 * U ↔
    (x : ℚ) < 4 * 10 ^ e * U := by
  have hden : (0 : ℚ) < (powerOfTen e).2 := by exact_mod_cast (powerOfTen_pos e).2
  rw [← Nat.cast_lt (α := ℚ), step_eq, Nat.cast_mul]
  exact mul_lt_mul_iff_of_pos_right hden

theorem interval_eq (s t : Nat) : interval s t =
    (4 * (s * Nat.pow 2 t) - below s t, 4 * (s * Nat.pow 2 t), 4 * (s * Nat.pow 2 t) + 2 * Nat.pow 2 t) := by
  simp only [interval, below, Nat.mul_assoc]

theorem gridPoint?_isSome (hU : Nat.pow 2 1074 = U)
    (h : 4 * (10 : ℚ) ^ e * U < (2 * Nat.pow 2 t : Nat)) : (gridPoint? s t e).isSome = true := by
  rw [← step_lt_iff] at h
  unfold gridPoint?
  simp only [interval_eq, hU]
  have hstep : 0 < 4 * (powerOfTen e).1 * U := by
    exact Nat.mul_pos (Nat.mul_pos (by decide) (powerOfTen_pos e).1) (pos_of_unit hU)
  generalize (powerOfTen e).2 = den at h ⊢
  generalize 4 * (powerOfTen e).1 * U = step at h hstep ⊢
  generalize hvalue : 4 * (s * Nat.pow 2 t) = value
  have hover : value * den < (value * den / step + 1) * step := by
    rw [Nat.mul_comm _ step]
    exact Nat.lt_mul_div_succ _ hstep
  have hnear : value * den / step * step ≤ value * den := Nat.div_mul_le_self _ _
  have hinside : (if s % 2 = 0 then
      decide ((value - below s t) * den ≤ (value * den / step + 1) * step) &&
        decide ((value * den / step + 1) * step ≤ (value + 2 * Nat.pow 2 t) * den)
      else decide ((value - below s t) * den < (value * den / step + 1) * step) &&
        decide ((value * den / step + 1) * step < (value + 2 * Nat.pow 2 t) * den)) = true := by
    have hlower : (value - below s t) * den ≤ value * den := Nat.mul_le_mul_right den (Nat.sub_le _ _)
    have hupper : (value * den / step + 1) * step < (value + 2 * Nat.pow 2 t) * den := by
      calc (value * den / step + 1) * step = value * den / step * step + step := Nat.succ_mul _ _
        _ ≤ value * den + step := Nat.add_le_add_right hnear _
        _ < value * den + 2 * Nat.pow 2 t * den := Nat.add_lt_add_left h _
        _ = (value + 2 * Nat.pow 2 t) * den := (Nat.add_mul _ _ _).symm
    split
    · simp only [Bool.and_eq_true, decide_eq_true_eq]
      exact ⟨(hlower.trans_lt hover).le, hupper.le⟩
    · simp only [Bool.and_eq_true, decide_eq_true_eq]
      exact ⟨hlower.trans_lt hover, hupper⟩
  rw [hinside]
  split
  · split <;> rfl
  · next hfalse => cases hfalse
  · rfl
  · next hfalse => cases hfalse

theorem gridPoint?_eq_none (hU : Nat.pow 2 1074 = U)
    (h : ((4 * (s * Nat.pow 2 t) + 2 * Nat.pow 2 t : Nat) : ℚ) < 4 * 10 ^ e * U) :
    gridPoint? s t e = none := by
  rw [← lt_step_iff] at h
  unfold gridPoint?
  simp only [interval_eq, hU]
  generalize (powerOfTen e).2 = den at h ⊢
  generalize 4 * (powerOfTen e).1 * U = step at h ⊢
  generalize 4 * (s * Nat.pow 2 t) = value at h ⊢
  have hdown : value * den / step = 0 := by
    apply Nat.div_eq_of_lt
    calc value * den ≤ (value + 2 * Nat.pow 2 t) * den := Nat.mul_le_mul_right den (Nat.le_add_right _ _)
      _ < step := h
  simp only [hdown, Nat.zero_add, Nat.one_mul, Nat.lt_irrefl, decide_false, Bool.and_false,
    Nat.not_le.mpr h, Nat.not_lt.mpr h.le, ite_self]

theorem shortestFrom_spec {bound : Int} {fuel : Nat} (hfine : (gridPoint? s t bound).isSome = true)
    (hle : bound ≤ e) (hfuel : e < bound + fuel) (hcoarse : ∀ e', e < e' → gridPoint? s t e' = none) :
    ∃ e₀, gridPoint? s t e₀ = some (shortestFrom s t fuel e) ∧ ∀ e', e₀ < e' → gridPoint? s t e' = none := by
  induction fuel generalizing e with
  | zero => omega
  | succ fuel ih =>
      unfold shortestFrom
      cases hgrid : gridPoint? s t e with
      | some numeral => exact ⟨e, hgrid, hcoarse⟩
      | none =>
          have hne : bound ≠ e := by
            rintro rfl
            simp [hgrid] at hfine
          apply ih
          · omega
          · omega
          · intro e' he'
            by_cases heq : e' = e
            · rw [heq, hgrid]
            · exact hcoarse e' (by omega)

theorem digitCount_pos {n : Nat} (hn : 0 < n) : 0 < digitCount n := by
  rw [digitCount, if_neg hn.ne']
  exact Nat.length_toDigits_pos

theorem digitCount_le_iff {n k : Nat} (hk : 0 < k) : digitCount n ≤ k ↔ n < 10 ^ k := by
  unfold digitCount
  by_cases hn : n = 0
  · simp [hn]
  · rw [if_neg hn]
    exact Nat.length_toDigits_le_iff (by decide) hk

theorem digitCount_div {x y : Nat} (hy : 0 < y) (hle : y ≤ x) :
    (10 : ℚ) ^ ((digitCount (x / y) : Int) - 1) * y ≤ x ∧ (x : ℚ) < 10 ^ (digitCount (x / y) : Int) * y := by
  have hquotient : 0 < x / y := Nat.div_pos hle hy
  obtain ⟨n, hn⟩ := Nat.exists_eq_succ_of_ne_zero (digitCount_pos hquotient).ne'
  have hupper : x < 10 ^ (n + 1) * y := by
    rw [← Nat.div_lt_iff_lt_mul hy, ← digitCount_le_iff n.succ_pos, hn]
  have hlower : 10 ^ n ≤ x / y := by
    by_cases hzero : n = 0
    · rw [hzero]
      exact hquotient
    · have hnot := digitCount_le_iff (n := x / y) (Nat.pos_of_ne_zero hzero)
      omega
  have hlower' : 10 ^ n * y ≤ x := (Nat.mul_le_mul_right y hlower).trans (Nat.div_mul_le_self x y)
  rw [hn, Nat.succ_eq_add_one, Nat.cast_add, Nat.cast_one, add_sub_cancel_right, zpow_natCast]
  exact ⟨by exact_mod_cast hlower', by exact_mod_cast hupper⟩

theorem topExponent_bounds (hU : Nat.pow 2 1074 = U) (hs : 0 < s) (t : Nat) :
    (10 : ℚ) ^ (topExponent s t - 1) * U ≤ (s * Nat.pow 2 t : Nat) ∧
      ((s * Nat.pow 2 t : Nat) : ℚ) ≤ 10 ^ topExponent s t * U := by
  have hx : 0 < s * Nat.pow 2 t := Nat.mul_pos hs (pow_two_pos t)
  have hpos := pos_of_unit hU
  unfold topExponent
  rw [hU]
  clear hU
  generalize s * Nat.pow 2 t = x at hx ⊢
  simp only
  by_cases hle : U ≤ x
  · rw [if_pos hle]
    obtain ⟨hlower, hupper⟩ := digitCount_div hpos hle
    exact ⟨hlower, hupper.le⟩
  · rw [if_neg hle]
    obtain ⟨hlower, hupper⟩ := digitCount_div hx (Nat.le_of_not_le hle)
    generalize (digitCount (U / x) : Int) = n at hlower hupper
    constructor
    · calc (10 : ℚ) ^ (1 - n - 1) * U ≤ 10 ^ (1 - n - 1) * (10 ^ n * x) := by gcongr
        _ = 10 ^ (1 - n - 1 + n) * x := by rw [zpow_add₀ (by norm_num), mul_assoc]
        _ = x := by simp
    · calc (x : ℚ) = 10 ^ (1 - n + (n - 1)) * x := by simp
        _ = 10 ^ (1 - n) * (10 ^ (n - 1) * x) := by rw [zpow_add₀ (by norm_num), mul_assoc]
        _ ≤ 10 ^ (1 - n) * U := by gcongr

/-- The shortest numeral of a double other than zero is a point of the coarsest decimal grid that has one in
the interval. -/
theorem gridPoint?_shortest (hs : 0 < s) (hlt : s < Nat.pow 2 53) (t : Nat) :
    ∃ e, gridPoint? s t e = some (shortest s t) ∧ ∀ e', e < e' → gridPoint? s t e' = none := by
  have hsplit (top : Int) : (10 : ℚ) ^ (top - 18) = 10 ^ (top - 1) / 10 ^ 17 := by
    rw [show top - 18 = top - 1 - 17 by ring, zpow_sub₀ (by norm_num)]
    norm_cast
  generalize hU : Nat.pow 2 1074 = U
  obtain ⟨hlower, hupper⟩ := topExponent_bounds hU hs t
  unfold shortest
  generalize topExponent s t = top at hlower hupper ⊢
  have hunit : (0 : ℚ) < (Nat.pow 2 t : Nat) := by exact_mod_cast pow_two_pos t
  have hpos : (0 : ℚ) < U := by exact_mod_cast pos_of_unit hU
  have hs' : (1 : ℚ) ≤ s := by exact_mod_cast hs
  have hlt' : (s : ℚ) ≤ 2 ^ 53 := by exact_mod_cast le_of_lt hlt
  push_cast at hlower hupper
  generalize hu : ((Nat.pow 2 t : Nat) : ℚ) = u at hunit hlower hupper
  have hfine : (gridPoint? s t (top - 18)).isSome = true := by
    apply gridPoint?_isSome hU
    push_cast [hu]
    calc 4 * (10 : ℚ) ^ (top - 18) * U = 4 / 10 ^ 17 * (10 ^ (top - 1) * U) := by
          rw [hsplit]
          ring
      _ ≤ 4 / 10 ^ 17 * (s * u) := by gcongr
      _ ≤ 4 / 10 ^ 17 * (2 ^ 53 * u) := by gcongr
      _ = 4 * 2 ^ 53 / 10 ^ 17 * u := by ring
      _ < 2 * u := by
          gcongr
          norm_num
  have hcoarse : ∀ e, top < e → gridPoint? s t e = none := by
    intro e he
    apply gridPoint?_eq_none hU
    have hfiner : (10 : ℚ) ^ (top + 1) ≤ 10 ^ e := zpow_le_zpow_right₀ (by norm_num) (Int.add_one_le_of_lt he)
    push_cast [hu]
    calc 4 * (s * u) + 2 * u ≤ 4 * (s * u) + 2 * (s * u) := by
          gcongr
          exact le_mul_of_one_le_left hunit.le hs'
      _ = 6 * (s * u) := by ring
      _ ≤ 6 * (10 ^ top * U) := by gcongr
      _ < 4 * (10 * 10 ^ top) * U := by
          have := mul_pos (zpow_pos (by norm_num : (0 : ℚ) < 10) top) hpos
          linarith
      _ = 4 * 10 ^ (top + 1) * U := by rw [zpow_add_one₀ (by norm_num), mul_comm (10 : ℚ)]
      _ ≤ 4 * 10 ^ e * U := by gcongr
  have hfuel : top < top - 18 + (40 : Nat) := by omega
  exact shortestFrom_spec hfine (by omega) hfuel hcoarse

end EntityGraph.Binary64
