/-!
# Doubles as exact numbers

A finite double is `significand * 2 ^ shift / 2 ^ 1074` with a sign, so that all of
rounding is arithmetic of natural numbers. A value is in normal form when its
significand is below `2 ^ 53`, and at least `2 ^ 52` unless the shift is zero.
-/
namespace EntityGraph

inductive Binary64 where
  | nan
  | infinite (negative : Bool)
  | finite (negative : Bool) (significand shift : Nat)
  deriving DecidableEq, Repr, Inhabited

namespace Binary64

def isFinite : Binary64 → Bool
  | finite _ _ _ => true
  | _ => false

def roundHalfEven (num den : Nat) : Nat :=
  let q := num / den
  let r := num % den
  if 2 * r < den then q else if den < 2 * r then q + 1 else q + q % 2

/-- The double nearest to `num / den`, a tie to the even significand; from half a unit
above the largest double on, infinity. -/
def round (negative : Bool) (num den : Nat) : Binary64 :=
  let scaled := num * Nat.pow 2 1074
  let shift := Nat.log2 (scaled / den) - 52
  let significand := roundHalfEven scaled (den * Nat.pow 2 shift)
  let (significand, shift) :=
    if significand = Nat.pow 2 53 then (Nat.pow 2 52, shift + 1) else (significand, shift)
  if 2045 < shift then infinite negative else finite negative significand shift

/-- The number of decimal digits of `n`; zero has none. -/
def digitCount (n : Nat) : Nat :=
  if n = 0 then 0 else (Nat.toDigits 10 n).length

/-- The double nearest to `digits * 10 ^ exponent`. Far outside the range of doubles the
answer is known from the number of digits, without forming the power of ten. -/
def ofDecimal (negative : Bool) (digits : Nat) (exponent : Int) : Binary64 :=
  let magnitude : Int := digitCount digits + exponent
  if digits = 0 then finite negative 0 0
  else if 310 ≤ magnitude then infinite negative
  else if magnitude < -324 then finite negative 0 0
  else if 0 ≤ exponent then round negative (digits * Nat.pow 10 exponent.toNat) 1
  else round negative digits (Nat.pow 10 (-exponent).toNat)

end Binary64
end EntityGraph
