import EntityGraph.Number.Shortest
import Mathlib.Tactic.Common

/-!
# Rounding to the nearest double

A number that lies in the interval around a double, with its ends if the significand is even, is rounded to
this double, and every number that is neither too small nor too large lies in such an interval. Numbers are
counted in units of `2 ^ -1074` here, the last digit of the smallest double, so that all of them are natural
numbers. Integers up to `2 ^ 53` are doubles themselves.
-/
namespace EntityGraph.Binary64

theorem pow_two_pos (a : Nat) : 0 < Nat.pow 2 a := Nat.pow_pos (by decide)

theorem pow_two_add (a b : Nat) : Nat.pow 2 (a + b) = Nat.pow 2 a * Nat.pow 2 b := Nat.pow_add 2 a b

theorem pow_two_succ (a : Nat) : Nat.pow 2 (a + 1) = 2 * Nat.pow 2 a := Nat.pow_succ'

theorem mul_add_le {a b : Nat} (h : a < b) (u : Nat) : a * u + u ≤ b * u := by
  rw [← Nat.succ_mul]
  exact Nat.mul_le_mul_right u h

theorem pow_two_le {a b : Nat} (h : a ≤ b) : Nat.pow 2 a ≤ Nat.pow 2 b := Nat.pow_le_pow_right (by decide) h

def roundUnits (negative : Bool) (scaled den : Nat) : Binary64 :=
  let shift := Nat.log2 (scaled / den) - 52
  let significand := roundHalfEven scaled (den * Nat.pow 2 shift)
  let (significand, shift) :=
    if significand = Nat.pow 2 53 then (Nat.pow 2 52, shift + 1) else (significand, shift)
  if 2045 < shift then infinite negative else finite negative significand shift

theorem round_eq_roundUnits (negative : Bool) (num den : Nat) :
    round negative num den = roundUnits negative (num * Nat.pow 2 1074) den := rfl

theorem roundUnits_of_log2 (negative : Bool) {x k : Nat} (hlog : Nat.log2 x = 52 + k) :
    roundUnits negative x 1 =
      let significand := roundHalfEven x (Nat.pow 2 k)
      let rounded := if significand = Nat.pow 2 53 then (Nat.pow 2 52, k + 1) else (significand, k)
      if 2045 < rounded.2 then infinite negative else finite negative rounded.1 rounded.2 := by
  unfold roundUnits
  simp only [Nat.div_one, hlog, Nat.add_sub_cancel_left, Nat.one_mul]

/-- An integer is nearest to the quotient, and even if another one is as near. -/
structure Nearest (num den q : Nat) : Prop where
  lower : 2 * (q * den) ≤ 2 * num + den
  upper : 2 * num ≤ 2 * (q * den) + den
  even : 2 * (q * den) = 2 * num + den ∨ 2 * num = 2 * (q * den) + den → q % 2 = 0

theorem nearest_roundHalfEven (num : Nat) {den : Nat} (hden : 0 < den) :
    Nearest num den (roundHalfEven num den) := by
  have hsplit := Nat.div_add_mod num den
  have hrest := Nat.mod_lt num hden
  rw [Nat.mul_comm] at hsplit
  unfold roundHalfEven
  generalize hd : num / den = d at hsplit ⊢
  generalize num % den = r at hsplit hrest ⊢
  have hnext : (d + 1) * den = d * den + den := Nat.succ_mul d den
  simp only
  split
  · constructor <;> omega
  · split
    · constructor <;> rw [hnext] <;> omega
    · have hhalf : den = 2 * r := by omega
      obtain heven | hodd := Nat.mod_two_eq_zero_or_one d
      · rw [heven, Nat.add_zero]
        constructor <;> omega
      · rw [hodd]
        constructor <;> rw [hnext] <;> omega

theorem Nearest.eq {num den q q' : Nat} (hden : 0 < den) (h : Nearest num den q) (h' : Nearest num den q') :
    q = q' := by
  wlog hless : q < q' generalizing q q'
  · obtain rfl | hgreater := Nat.eq_or_lt_of_not_lt hless
    · rfl
    · exact (this h' h hgreater).symm
  obtain ⟨-, hupper, heven⟩ := h
  obtain ⟨hlower', -, heven'⟩ := h'
  -- two nearest ones are neighbours, and not both even
  have hstep : q * den + den ≤ q' * den := mul_add_le hless den
  have hq : q' = q + 1 := by
    by_contra hne
    have hfar : (q + 1) * den + den ≤ q' * den := mul_add_le (by omega) den
    rw [Nat.succ_mul] at hfar
    omega
  subst hq
  rw [Nat.succ_mul] at hlower' heven'
  have := heven (.inr (by omega))
  have := heven' (.inl (by omega))
  omega

theorem roundHalfEven_eq {num den q : Nat} (hden : 0 < den) (h : Nearest num den q) :
    roundHalfEven num den = q :=
  (nearest_roundHalfEven num hden).eq hden h

/-- The part of the interval below the value, in quarters of the unit. -/
def below (significand shift : Nat) : Nat :=
  if significand = Nat.pow 2 52 ∧ 0 < shift then Nat.pow 2 shift else 2 * Nat.pow 2 shift

theorem below_pos (s t : Nat) : 0 < below s t := by
  have hu := pow_two_pos t
  unfold below
  split <;> omega

theorem below_le (s t : Nat) : below s t ≤ 2 * Nat.pow 2 t := by
  unfold below
  split <;> omega

/-- The number, in units of `2 ^ -1074`, is in the interval around a double. -/
structure Within (significand shift scaled : Nat) : Prop where
  lower : 4 * (significand * Nat.pow 2 shift) ≤ 4 * scaled + below significand shift
  upper : 2 * scaled ≤ 2 * (significand * Nat.pow 2 shift) + Nat.pow 2 shift
  even : 4 * (significand * Nat.pow 2 shift) = 4 * scaled + below significand shift ∨
    2 * scaled = 2 * (significand * Nat.pow 2 shift) + Nat.pow 2 shift → significand % 2 = 0

/-- The significand has all of its 53 digits. -/
structure Normal (significand shift : Nat) : Prop where
  lower : Nat.pow 2 52 ≤ significand
  upper : significand < 2 * Nat.pow 2 52
  pos : 0 < shift
  le : shift ≤ 2045

theorem log2_eq {x k u : Nat} (hu : Nat.pow 2 k = u) (hlow : u ≤ x) (hhigh : x < 2 * u) : Nat.log2 x = k := by
  subst hu
  have hpos : 0 < Nat.pow 2 k := pow_two_pos _
  refine (Nat.log2_eq_iff (by omega)).mpr ⟨hlow, ?_⟩
  rw [Nat.pow_succ']
  exact hhigh

theorem roundUnits_of_within (negative : Bool) {s t x : Nat} (hs : Normal s t) (hx : Within s t x) :
    roundUnits negative x 1 = finite negative s t := by
  obtain ⟨hlower, hupper, hpos, hle⟩ := hs
  obtain ⟨hlow, hhigh, heven⟩ := hx
  have hu : 0 < Nat.pow 2 t := pow_two_pos _
  have hfull : Nat.pow 2 53 = 2 * Nat.pow 2 52 := pow_two_succ 52
  by_cases hcarry : s = Nat.pow 2 52 ∧ x < s * Nat.pow 2 t
  · -- a number below a power of two has a digit more at the end, and is rounded up to the power
    obtain ⟨rfl, hless⟩ := hcarry
    obtain ⟨k, rfl⟩ : ∃ k, t = k + 1 := ⟨t - 1, by omega⟩
    have hk : 0 < Nat.pow 2 k := pow_two_pos _
    have hP : Nat.pow 2 k ≤ Nat.pow 2 52 * Nat.pow 2 k := Nat.le_mul_of_pos_left _ (by decide)
    simp only [below, and_self, hpos, if_true] at hlow
    rw [pow_two_succ k, Nat.mul_left_comm (Nat.pow 2 52) 2] at hlow hless
    have hlog : Nat.log2 x = 52 + k :=
      log2_eq (pow_two_add 52 k) (by omega) hless
    have hq : roundHalfEven x (Nat.pow 2 k) = Nat.pow 2 53 := by
      rw [hfull]
      refine roundHalfEven_eq hk ?_
      constructor <;> rw [Nat.mul_assoc] <;> omega
    rw [roundUnits_of_log2 negative hlog]
    simp only [hq, if_true, Nat.not_lt.mpr hle, if_false]
  · have hnext : s * Nat.pow 2 t + Nat.pow 2 t ≤ 2 * (Nat.pow 2 52 * Nat.pow 2 t) := by
      rw [← Nat.mul_assoc]
      exact mul_add_le hupper _
    have hnearest : Nat.pow 2 52 * Nat.pow 2 t ≤ x ∧ Nearest x (Nat.pow 2 t) s := by
      by_cases hs : s = Nat.pow 2 52
      · subst hs
        exact ⟨by omega, by omega, hhigh, fun _ => by decide⟩
      · have hprev : Nat.pow 2 52 * Nat.pow 2 t + Nat.pow 2 t ≤ s * Nat.pow 2 t := mul_add_le (by omega) _
        simp only [below, hs, false_and, if_false] at hlow heven
        exact ⟨by omega, by omega, hhigh, fun h => heven (h.imp (by omega) id)⟩
    have hlog : Nat.log2 x = 52 + t := log2_eq (pow_two_add 52 t) hnearest.1 (by omega)
    have hne : s ≠ Nat.pow 2 53 := by omega
    rw [roundUnits_of_log2 negative hlog]
    simp only [roundHalfEven_eq hu hnearest.2, hne, Nat.not_lt.mpr hle, if_false]

/-- Every number that is neither too small nor too large is in the interval around a double. -/
theorem exists_within {x k : Nat} (hlow : Nat.pow 2 52 * Nat.pow 2 k ≤ x)
    (hhigh : x < 2 * (Nat.pow 2 52 * Nat.pow 2 k)) (hpos : 0 < k) (hle : k < 2045) :
    ∃ s t, k ≤ t ∧ Normal s t ∧ Within s t x := by
  have hu : 0 < Nat.pow 2 k := pow_two_pos _
  have hP : 0 < Nat.pow 2 52 := by decide
  obtain ⟨hlower, hupper, heven⟩ := nearest_roundHalfEven x hu
  generalize roundHalfEven x (Nat.pow 2 k) = q at hlower hupper heven
  have hfrom : Nat.pow 2 52 ≤ q := by
    by_contra hless
    have := mul_add_le (Nat.lt_of_not_le hless) (Nat.pow 2 k)
    omega
  have hto : q ≤ 2 * Nat.pow 2 52 := by
    by_contra hmore
    have := mul_add_le (Nat.lt_of_not_le hmore) (Nat.pow 2 k)
    rw [Nat.mul_assoc] at this
    omega
  obtain rfl | hfull := Nat.eq_or_lt_of_le hto
  · refine ⟨Nat.pow 2 52, k + 1, by omega, ⟨Nat.le_refl _, by omega, by omega, hle⟩, ?_⟩
    rw [Nat.mul_assoc] at hlower
    constructor
    · simp only [below, and_self, Nat.succ_pos, if_true]
      rw [pow_two_succ k, Nat.mul_left_comm (Nat.pow 2 52) 2]
      omega
    · rw [pow_two_succ k, Nat.mul_left_comm (Nat.pow 2 52) 2]
      omega
    · exact fun _ => by decide
  · refine ⟨q, k, Nat.le_refl k, ⟨hfrom, hfull, hpos, by omega⟩, ?_⟩
    by_cases hq : q = Nat.pow 2 52
    · subst hq
      exact ⟨by omega, hupper, fun _ => by decide⟩
    · have hbelow : below q k = 2 * Nat.pow 2 k := by simp only [below, hq, false_and, if_false]
      exact ⟨by omega, hupper, fun h => heven (h.imp (by omega) id)⟩

theorem within_of_eq {s t x : Nat} (h : s * Nat.pow 2 t = x) : Within s t x := by
  subst h
  have hu := pow_two_pos t
  have hbelow := below_pos s t
  exact ⟨by omega, by omega, fun h => by omega⟩

theorem exists_exact {n m : Nat} (hn : 0 < n) (hle : n ≤ Nat.pow 2 53) (hm : 52 < m) (hm' : m < 2045) :
    ∃ s t, Normal s t ∧ s * Nat.pow 2 t = n * Nat.pow 2 m ∧
      (t ≤ m ∨ s = Nat.pow 2 52 ∧ t = m + 1 ∧ n = Nat.pow 2 53) := by
  obtain rfl | hless := Nat.eq_or_lt_of_le hle
  · refine ⟨Nat.pow 2 52, m + 1, ⟨Nat.le_refl _, by decide, by omega, by omega⟩, ?_, .inr ⟨rfl, rfl, rfl⟩⟩
    rw [pow_two_succ m, pow_two_succ 52, Nat.mul_left_comm, Nat.mul_assoc]
  · obtain ⟨L, hL⟩ : ∃ L, Nat.log2 n = L := ⟨_, rfl⟩
    obtain ⟨hfrom, hto⟩ := (Nat.log2_eq_iff (by omega)).mp hL
    have hdigits : L < 53 := hL ▸ (Nat.log2_lt (by omega)).mpr hless
    have hfill : Nat.pow 2 L * Nat.pow 2 (52 - L) = Nat.pow 2 52 := by
      rw [← pow_two_add, Nat.add_sub_cancel' (by omega)]
    have hshift : Nat.pow 2 (52 - L) * Nat.pow 2 (L + m - 52) = Nat.pow 2 m := by
      rw [← pow_two_add]
      exact congrArg (Nat.pow 2) (by omega)
    refine ⟨n * Nat.pow 2 (52 - L), L + m - 52, ⟨?_, ?_, by omega, by omega⟩, ?_, .inl (by omega)⟩
    · rw [← hfill]
      exact Nat.mul_le_mul_right _ hfrom
    · rw [← hfill, ← Nat.mul_assoc, ← pow_two_succ]
      exact Nat.mul_lt_mul_of_pos_right hto (pow_two_pos _)
    · rw [Nat.mul_assoc, hshift]

/-- The double nearest to a number is an integer itself: the number up to `2 ^ 53`, and otherwise one of the
multiples of a power of two around it. -/
theorem exists_near {n m U : Nat} (hU : Nat.pow 2 m = U) (hn : 0 < n) (hle : n < Nat.pow 2 64) (hm : 52 < m)
    (hm' : m < 1980) :
    ∃ s t v, Normal s t ∧ Within s t (n * U) ∧ s * Nat.pow 2 t = v * U ∧
      (n ≤ Nat.pow 2 53 → v = n ∧ (t ≤ m ∨ s = Nat.pow 2 52 ∧ t = m + 1 ∧ n = Nat.pow 2 53)) := by
  subst hU
  obtain hsmall | hlarge := (Nat.lt_or_ge (Nat.pow 2 53) n).symm
  · obtain ⟨s, t, hnormal, heq, ht⟩ := exists_exact hn hsmall hm (by omega)
    exact ⟨s, t, n, hnormal, within_of_eq heq, heq, fun _ => ⟨rfl, ht⟩⟩
  · obtain ⟨L, hL⟩ : ∃ L, Nat.log2 n = L := ⟨_, rfl⟩
    obtain ⟨hfrom, hto⟩ := (Nat.log2_eq_iff (by omega)).mp hL
    have hL53 : 53 ≤ L := hL ▸ (Nat.le_log2 (by omega)).mpr (Nat.le_of_lt hlarge)
    have hL63 : L < 64 := hL ▸ (Nat.log2_lt (by omega)).mpr hle
    have hscale : Nat.pow 2 52 * Nat.pow 2 (L + m - 52) = Nat.pow 2 L * Nat.pow 2 m := by
      rw [← pow_two_add, ← pow_two_add]
      exact congrArg (Nat.pow 2) (by omega)
    have hlow : Nat.pow 2 52 * Nat.pow 2 (L + m - 52) ≤ n * Nat.pow 2 m :=
      hscale ▸ Nat.mul_le_mul_right _ hfrom
    have hhigh : n * Nat.pow 2 m < 2 * (Nat.pow 2 52 * Nat.pow 2 (L + m - 52)) := by
      rw [hscale, ← Nat.mul_assoc, ← pow_two_succ]
      exact Nat.mul_lt_mul_of_pos_right hto (pow_two_pos _)
    obtain ⟨s, t, ht, hnormal, hwithin⟩ := exists_within hlow hhigh (by omega) (by omega)
    have hintegral : Nat.pow 2 t = Nat.pow 2 (t - m) * Nat.pow 2 m := by
      rw [← pow_two_add]
      exact congrArg (Nat.pow 2) (by omega)
    exact ⟨s, t, s * Nat.pow 2 (t - m), hnormal, hwithin, by rw [hintegral, Nat.mul_assoc],
      fun h => absurd hlarge (by omega)⟩

end EntityGraph.Binary64
