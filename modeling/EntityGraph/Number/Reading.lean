import EntityGraph.Number.Binary64

/-!
# Reading decimal numerals

A numeral is an optional sign, digits with at most one point among them (at least one
digit in all), and an optional exponent. The words for infinity and for "not a
number" are read in any case.
-/
namespace EntityGraph.Binary64

def readDigits (value : Nat) : List Char → Nat
  | [] => value
  | c :: rest => readDigits (10 * value + (c.toNat - '0'.toNat)) rest

/-- The exponent after its letter: an optional sign and at least one digit. -/
def readExponent? : List Char → Option Int
  | '-' :: digits =>
    if digits ≠ [] ∧ digits.all Char.isDigit then some (-(readDigits 0 digits : Int)) else none
  | '+' :: digits =>
    if digits ≠ [] ∧ digits.all Char.isDigit then some (readDigits 0 digits) else none
  | digits =>
    if digits ≠ [] ∧ digits.all Char.isDigit then some (readDigits 0 digits) else none

def readUnsigned? (negative : Bool) (s : List Char) : Option Binary64 := do
  let whole := s.takeWhile Char.isDigit
  let afterWhole := s.dropWhile Char.isDigit
  let (fraction, afterFraction) :=
    match afterWhole with
    | '.' :: rest => (rest.takeWhile Char.isDigit, rest.dropWhile Char.isDigit)
    | rest => ([], rest)
  if whole = [] ∧ fraction = [] then none
  let exponent ←
    match afterFraction with
    | [] => some 0
    | letter :: rest => if letter = 'e' ∨ letter = 'E' then readExponent? rest else none
  return ofDecimal negative (readDigits 0 (whole ++ fraction)) (exponent - fraction.length)

/-- A numeral or one of the words for a value that is not finite, after its sign. -/
def readMagnitude? (negative : Bool) (s : List Char) : Option Binary64 :=
  let word := String.ofList (s.map Char.toLower)
  if word = "inf" ∨ word = "infinity" then some (infinite negative)
  else if word = "nan" then some nan
  else readUnsigned? negative s

def read? : List Char → Option Binary64
  | '-' :: rest => readMagnitude? true rest
  | '+' :: rest => readMagnitude? false rest
  | s => readMagnitude? false s

end EntityGraph.Binary64
