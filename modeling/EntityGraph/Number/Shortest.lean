import EntityGraph.Number.Binary64

/-!
# The fewest digits that read back

Every double is the nearest double to all reals of an interval around it, whose ends
belong to it when the significand is even. Its shortest numeral is the point of the
coarsest decimal grid that has a point in the interval, and the nearest such point.
All comparisons are between natural numbers.
-/
namespace EntityGraph.Binary64

structure Numeral where
  digits : Nat
  exponent : Int
  deriving DecidableEq, Repr

/-- Four times the lower and upper end of the interval that rounds to
`significand * 2 ^ shift`, and four times the value itself, all in units of `2 ^ -1074`.
Below a power of two the neighbours are half as far away. -/
def interval (significand shift : Nat) : Nat × Nat × Nat :=
  let unit := Nat.pow 2 shift
  let value := 4 * significand * unit
  let below := if significand = Nat.pow 2 52 ∧ 0 < shift then unit else 2 * unit
  (value - below, value, value + 2 * unit)

def powerOfTen (e : Int) : Nat × Nat :=
  if 0 ≤ e then (Nat.pow 10 e.toNat, 1) else (1, Nat.pow 10 (-e).toNat)

/-- The point of the grid of multiples of `10 ^ e` that lies in the interval and is
nearest to the value, the upper one of two equally near ones. -/
def gridPoint? (significand shift : Nat) (e : Int) : Option Numeral :=
  let (low, value, high) := interval significand shift
  let (num, den) := powerOfTen e
  -- one step of the grid, in quarters of the unit and scaled by `den`
  let step := 4 * num * Nat.pow 2 1074
  let inside (point : Nat) : Bool :=
    if significand % 2 = 0 then low * den ≤ point * step && point * step ≤ high * den
    else low * den < point * step && point * step < high * den
  let down := value * den / step
  let up := down + 1
  match inside down && 0 < down, inside up with
  | true, true =>
    if value * den - down * step < up * step - value * den then some ⟨down, e⟩ else some ⟨up, e⟩
  | true, false => some ⟨down, e⟩
  | false, true => some ⟨up, e⟩
  | false, false => none

def shortestFrom (significand shift : Nat) : Nat → Int → Numeral
  | 0, e => ⟨significand * Nat.pow 2 shift, e⟩
  | fuel + 1, e =>
    match gridPoint? significand shift e with
    | some numeral => numeral
    | none => shortestFrom significand shift fuel (e - 1)

/-- A bound on the decimal exponent of `significand * 2 ^ shift / 2 ^ 1074`: no coarser
grid has a point in the interval. -/
def topExponent (significand shift : Nat) : Int :=
  let scaled := significand * Nat.pow 2 shift
  if Nat.pow 2 1074 ≤ scaled then digitCount (scaled / Nat.pow 2 1074)
  else 1 - (digitCount (Nat.pow 2 1074 / scaled) : Int)

/-- The shortest numeral of a finite double other than zero, without trailing zeros. -/
def shortest (significand shift : Nat) : Numeral :=
  shortestFrom significand shift 40 (topExponent significand shift)

end EntityGraph.Binary64
