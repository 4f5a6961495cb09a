/-!
# Punycode

A label with characters beyond ASCII is written with the ASCII characters of it first and, after
the last hyphen, numbers that say which characters are inserted between them, and where. A number
is written in base thirty-six, the least digit first; thresholds that follow the size of the last
numbers tell where it ends.
-/
namespace EntityGraph.Domain.Punycode

def digit? (c : Char) : Option Nat :=
  if 'a' ≤ c && c ≤ 'z' then some (c.toNat - 'a'.toNat)
  else if 'A' ≤ c && c ≤ 'Z' then some (c.toNat - 'A'.toNat)
  else if c.isDigit then some (c.toNat - '0'.toNat + 26)
  else none

/-- The digits below the threshold end a number; `place` counts the digits before this one. -/
def threshold (bias place : Nat) : Nat :=
  max 1 (min 26 (36 * (place + 1) - bias))

def biasFrom (k : Nat) (delta : Nat) : Nat :=
  if 455 < delta then biasFrom (k + 36) (delta / 35) else k + 36 * delta / (delta + 38)
termination_by delta

/-- The bias after the number `delta` was read and the label has `count` characters. -/
def adapt (delta count : Nat) (isFirst : Bool) : Nat :=
  let delta := if isFirst then delta / 700 else delta / 2
  biasFrom 0 (delta + delta / count)

def readNumber (bias : Nat) (sum weight place : Nat) : List Char → Option (Nat × List Char)
  | [] => none
  | c :: rest => do
    let digit ← digit? c
    let sum := sum + digit * weight
    let limit := threshold bias place
    if 2 ^ 32 ≤ sum then none
    else if digit < limit then some (sum, rest)
    else if 2 ^ 32 ≤ weight * (36 - limit) then none
    else readNumber bias sum (weight * (36 - limit)) (place + 1) rest

/-- Insert the characters that the digits describe. The next one has the code point `code` or a
larger one, and at that code point its place is `position` or further right. -/
def insertAll (code position bias : Nat) (label : List Char) : Nat → List Char → Option (List Char)
  | 0, _ => none
  | _ + 1, [] => some label
  | fuel + 1, digits => do
    let (sum, rest) ← readNumber bias position 1 0 digits
    let count := label.length + 1
    let code := code + sum / count
    let place := sum % count
    if !code.isValidChar then none
    let label := label.take place ++ Char.ofNat code :: label.drop place
    insertAll code (place + 1) (adapt (sum - position) count (position = 0)) label fuel rest

def decode? (s : List Char) : Option (List Char) :=
  let digits := (s.reverse.takeWhile (· ≠ '-')).reverse
  let plain := s.take (s.length - digits.length - 1)
  if plain = [] then insertAll 128 0 72 [] (s.length + 1) s
  else insertAll 128 0 72 plain (digits.length + 1) digits

end EntityGraph.Domain.Punycode
