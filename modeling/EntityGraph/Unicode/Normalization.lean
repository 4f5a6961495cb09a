import EntityGraph.Unicode.Decomposition

/-!
# Normalization

The composed normal form of a text: every character is decomposed as far as possible, marks on one
character are put into the order of their classes, and characters are composed with the marks that
follow them. Texts that differ only in how their characters are encoded have one normal form.
-/
namespace EntityGraph.Unicode

def hangulParts? (c : Char) : Option (List Char) :=
  let code := c.toNat
  if 0xAC00 ≤ code && code ≤ 0xD7A3 then
    let index := code - 0xAC00
    let leading := Char.ofNat (0x1100 + index / 588)
    let vowel := Char.ofNat (0x1161 + index % 588 / 28)
    if index % 28 = 0 then some [leading, vowel]
    else some [leading, vowel, Char.ofNat (0x11A7 + index % 28)]
  else none

/-- The decomposition of a character, which goes at most `depth` steps down. -/
def decompose : Nat → Char → List Char
  | 0, c => [c]
  | depth + 1, c =>
    match hangulParts? c with
    | some parts => parts
    | none =>
      match image? decompositionRows c with
      | some parts => parts.flatMap (decompose depth)
      | none => [c]

def insertMark (c : Char) : List Char → List Char
  | [] => [c]
  | d :: rest =>
    if combiningClass d ≠ 0 && combiningClass d < combiningClass c then d :: insertMark c rest
    else c :: d :: rest

def orderMarks : List Char → List Char
  | [] => []
  | c :: rest =>
    if combiningClass c = 0 then c :: orderMarks rest else insertMark c (orderMarks rest)

def compositions : List (Char × Char × Char) :=
  decompositionRows.flatMap fun
    | .listed first images =>
      images.zipIdx.filterMap fun (image, offset) =>
        let composed := Char.ofNat (first + offset)
        match image with
        | [a, b] =>
          if isIn excludedRanges composed then none else some (Char.ofNat a, Char.ofNat b, composed)
        | _ => none
    | .shifted _ _ _ _ => []

def hangulSyllable? (a b : Char) : Option Char :=
  let first := a.toNat
  let second := b.toNat
  if 0x1100 ≤ first && first < 0x1113 && 0x1161 ≤ second && second < 0x1176 then
    some (Char.ofNat (0xAC00 + ((first - 0x1100) * 21 + (second - 0x1161)) * 28))
  else if 0xAC00 ≤ first && first ≤ 0xD7A3 && (first - 0xAC00) % 28 = 0
      && 0x11A8 ≤ second && second < 0x11C3 then
    some (Char.ofNat (first + (second - 0x11A7)))
  else none

def compose? (a b : Char) : Option Char :=
  match hangulSyllable? a b with
  | some c => some c
  | none => (compositions.find? fun (x, y, _) => x = a && y = b).map fun (_, _, c) => c

/-- Compose `starter` with what follows it. `marks` stand between the two, and one of them hides the
characters after it whose class is not larger. -/
def composeFrom (starter : Char) (marks : List Char) : List Char → List Char
  | [] => starter :: marks
  | c :: rest =>
    let isVisible := marks.getLast?.all fun mark => combiningClass mark < combiningClass c
    match if isVisible then compose? starter c else none with
    | some composed => composeFrom composed marks rest
    | none =>
      if combiningClass c = 0 then starter :: marks ++ composeFrom c [] rest
      else composeFrom starter (marks ++ [c]) rest

def composeAll : List Char → List Char
  | [] => []
  | c :: rest => if combiningClass c = 0 then composeFrom c [] rest else c :: composeAll rest

def normalize (s : List Char) : List Char :=
  composeAll (orderMarks (s.flatMap (decompose 8)))

end EntityGraph.Unicode
