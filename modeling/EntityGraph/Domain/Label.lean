import EntityGraph.Domain.Punycode
import EntityGraph.Unicode.Direction
import EntityGraph.Unicode.Joining
import EntityGraph.Unicode.Mark
import EntityGraph.Unicode.Normalization

/-!
# Labels of domain names

The rules for a label on its own: it does not start with a mark, and invisible joiners stand only
where they change how letters are written. In a domain with letters or numbers of scripts that are
written from right to left, no label may be such that its characters change places with those of
another one.
-/
namespace EntityGraph.Domain

open Unicode

/-- Whether the nearest character that is not transparent joins in one of the given ways. -/
def joinsWith (allowed : List Joining) : List Char → Bool
  | [] => false
  | c :: rest =>
    if joining c = .transparent then joinsWith allowed rest else allowed.contains (joining c)

/-- Whether invisible joiners are in their places: behind a character that silences a vowel, or, for
the one that separates, between letters that would join. `before` is what precedes, the last
character first. -/
def hasJoinersInPlace (before : List Char) : List Char → Bool
  | [] => true
  | c :: rest =>
    let isSilenced := before.head?.any fun previous => combiningClass previous = 9
    let isInPlace :=
      if c = '\u200d' then isSilenced
      else if c = '\u200c' then
        isSilenced || (joinsWith [.left, .dual] before && joinsWith [.right, .dual] rest)
      else true
    isInPlace && hasJoinersInPlace (c :: before) rest

def hasRules (label : List Char) : Bool :=
  !(label.head?.any isMark) && hasJoinersInPlace [] label
    && (label.length ≤ 1000 || label.all fun c => c.toNat < 0x80)

def isRightToLeft (c : Char) : Bool :=
  [.rightToLeft, .arabicLetter, .arabicNumber].contains (direction c)

def directions (label : List Char) : List Direction :=
  ((label.map direction).reverse.dropWhile (· = .nonspacingMark)).reverse

/-- The rule on the directions in a label. It starts with a letter, which decides what may follow
and with what it may end; a label that is written from the right does not mix two kinds of
numbers. -/
def hasDirections (label : List Char) : Bool :=
  let neutral : List Direction :=
    [.europeanNumber, .europeanSeparator, .commonSeparator, .europeanTerminator, .otherNeutral,
     .boundaryNeutral, .nonspacingMark]
  match label with
  | [] => true
  | first :: _ =>
    let all := directions label
    if direction first = .leftToRight then
      all.all (fun d => d = .leftToRight || neutral.contains d)
        && all.getLast?.all fun d => d = .leftToRight || d = .europeanNumber
    else if direction first = .rightToLeft || direction first = .arabicLetter then
      let own : List Direction := [.rightToLeft, .arabicLetter, .arabicNumber]
      all.all (fun d => own.contains d || neutral.contains d)
        && all.getLast?.all (fun d => own.contains d || d = .europeanNumber)
        && !(all.contains .europeanNumber && all.contains .arabicNumber)
    else false

end EntityGraph.Domain
