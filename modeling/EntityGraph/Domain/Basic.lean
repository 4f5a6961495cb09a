import EntityGraph.Domain.Label
import EntityGraph.Domain.Mapping

/-!
# Domain names

A domain name is mapped character by character and normalized; then its labels are looked at. A
label that is written in ASCII for a label beyond ASCII has to stand for one that is left as it is
by mapping and normalization.
-/
namespace EntityGraph.Domain

/-- Whether the character may not stand in a domain: controls, the blank and what has a meaning in
a URL. -/
def isForbidden (c : Char) : Bool :=
  c.toNat ≤ 0x20 || c.toNat = 0x7F || "%#/:<>?@[\\]^|".toList.contains c

def mapText (s : List Char) : Option (List Char) :=
  (s.mapM mapChar).map fun images => Unicode.normalize images.flatten

def readLabel (label : List Char) : Option (List Char) :=
  match label with
  | 'x' :: 'n' :: '-' :: '-' :: written =>
    if written.isEmpty || written.getLast? = some '-' || 2000 < written.length
        || written.any (0x80 ≤ ·.toNat) then none
    else do
      let label ← Punycode.decode? written
      if mapText label = some label then some label else none
  | label => some label

def map? (s : List Char) : Option (List Char) := do
  let mapped ← mapText s
  if mapped.any isForbidden then none
  let labels ← (Text.splitAt '.' mapped).mapM readLabel
  if !labels.all hasRules then none
  if labels.any (·.any isRightToLeft) && !labels.all hasDirections then none
  return mapped

end EntityGraph.Domain
