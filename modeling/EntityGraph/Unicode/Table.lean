import EntityGraph.Text.Blank
import EntityGraph.Text.Hex

/-!
# Tables of characters

Properties of characters are given by tables of code points in base sixteen. A table of ranges is
a list of words `first` or `first-last`. A table of images is a list of words that say what the
characters of a range become: `first-last>image` shifts the whole range, `first-last/2>image` every
second character of it, and `first>image,image` gives the images one after the other, each of them
code points with plus signs between them.
-/
namespace EntityGraph.Unicode

def codePoint (digits : List Char) : Nat :=
  Text.numeral 16 digits

def words (lines : List String) : List (List Char) :=
  lines.flatMap fun line => Text.splitAt ' ' line.toList

def rangeOf (word : List Char) : Nat × Nat :=
  match Text.splitAt '-' word with
  | [first, last] => (codePoint first, codePoint last)
  | _ => (codePoint word, codePoint word)

def ranges (lines : List String) : List (Nat × Nat) :=
  (words lines).map rangeOf

def isIn (table : List (Nat × Nat)) (c : Char) : Bool :=
  table.any fun (first, last) => first ≤ c.toNat && c.toNat ≤ last

inductive Row where
  /-- Every `step`-th character of a range is shifted, the first one to `image`. -/
  | shifted (first last step image : Nat)
  | listed (first : Nat) (images : List (List Nat))
  deriving DecidableEq, Repr

namespace Row

def image? (code : Nat) : Row → Option (List Nat)
  | shifted first last step image =>
    if first ≤ code && code ≤ last && (code - first) % step == 0 then some [image + (code - first)]
    else none
  | listed first images => if first ≤ code then images[code - first]? else none

def ofWord (word : List Char) : Row :=
  let source := word.takeWhile (· ≠ '>')
  let target := (word.dropWhile (· ≠ '>')).drop 1
  if source.contains '-' then
    let (first, last) := rangeOf (source.takeWhile (· ≠ '/'))
    shifted first last (if source.contains '/' then 2 else 1) (codePoint target)
  else
    listed (codePoint source)
      ((Text.splitAt ',' target).map fun image => (Text.splitAt '+' image).map codePoint)

end Row

def rows (lines : List String) : List Row :=
  (words lines).map Row.ofWord

def image? (table : List Row) (c : Char) : Option (List Char) :=
  (table.findSome? (·.image? c.toNat)).map (·.map Char.ofNat)

end EntityGraph.Unicode
