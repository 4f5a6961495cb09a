import EntityGraph.Number.Shortest

/-!
# Numerals as text

Two notations for doubles. The plain one writes every digit of the shortest numeral
around a decimal point and never an exponent. The annotated one always marks the
number as a double, by a point or by an exponent, and uses the exponent for
magnitudes from `10 ^ 16` on and below `10 ^ -4`.
-/
namespace EntityGraph.Binary64

def decimalText (n : Nat) : String :=
  String.ofList (Nat.toDigits 10 n)

def signText (negative : Bool) : String :=
  if negative then "-" else ""

def positional (numeral : Numeral) : String :=
  let digits := Nat.toDigits 10 numeral.digits
  if 0 ≤ numeral.exponent then
    String.ofList (digits ++ List.replicate numeral.exponent.toNat '0')
  else
    let places := (-numeral.exponent).toNat
    if places < digits.length then
      String.ofList (digits.take (digits.length - places) ++ '.' :: digits.drop (digits.length - places))
    else
      String.ofList ('0' :: '.' :: (List.replicate (places - digits.length) '0' ++ digits))

def scientific (numeral : Numeral) : String :=
  let digits := Nat.toDigits 10 numeral.digits
  let exponent := numeral.exponent + (digits.length - 1 : Nat)
  let mantissa :=
    match digits with
    | [] => []
    | [d] => [d]
    | d :: rest => d :: '.' :: rest
  let exponentText :=
    if exponent < 0 then "-" ++ decimalText exponent.natAbs else decimalText exponent.natAbs
  String.ofList mantissa ++ "e" ++ exponentText

def plainText : Binary64 → String
  | nan => "NaN"
  | infinite negative => signText negative ++ "inf"
  | finite negative significand shift =>
    if significand = 0 then signText negative ++ "0"
    else signText negative ++ positional (shortest significand shift)

def Numeral.leading (numeral : Numeral) : Int :=
  numeral.exponent + (Nat.toDigits 10 numeral.digits).length - 1

def annotatedText : Binary64 → String
  | nan => "NaN"
  | infinite negative => signText negative ++ "inf"
  | finite negative significand shift =>
    if significand = 0 then signText negative ++ "0.0"
    else
      let numeral := shortest significand shift
      if 16 ≤ numeral.leading ∨ numeral.leading < -4 then
        signText negative ++ scientific numeral
      else if 0 ≤ numeral.exponent then signText negative ++ positional numeral ++ ".0"
      else signText negative ++ positional numeral

/-- The integer that a finite double is equal to, without its sign. -/
def integral? (significand shift : Nat) : Option Nat :=
  let scaled := significand * Nat.pow 2 shift
  if scaled % Nat.pow 2 1074 = 0 then some (scaled / Nat.pow 2 1074) else none

end EntityGraph.Binary64
