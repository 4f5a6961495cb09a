import EntityGraph.Text.Hex
import EntityGraph.Yaml.Character

/-!
# Scalars within lines

Plain scalars and scalars between quotes. They may run over several lines: the blanks around line
ends do not count, one line end stands for a blank and of several the first one does not count.
The readers consume one character at a step and remember the gap, blanks or line ends, before it.
-/
namespace EntityGraph.Yaml

/-- How a scalar was written, as far as it decides what the scalar can stand for. -/
inductive Style where
  | plain
  | quoted
  | literal
  deriving DecidableEq, Repr

/-- What stands between two characters of a scalar: blanks, or line ends. A gap is joined if its
first line end was escaped and so does not count. -/
structure Gap where
  blanks : List Char := []
  breaks : List Char := []
  isJoined : Bool := false
  deriving DecidableEq, Repr

namespace Gap

def isBroken (gap : Gap) : Bool :=
  gap.isJoined || !gap.breaks.isEmpty

def addBlank (gap : Gap) (c : Char) : Gap :=
  if gap.isBroken then gap else { gap with blanks := gap.blanks ++ [c] }

def addBreak (gap : Gap) (c : Char) : Gap :=
  { gap with blanks := [], breaks := gap.breaks ++ [c] }

def fold (gap : Gap) : List Char :=
  if gap.isJoined then gap.breaks
  else
    match gap.breaks with
    | [] => gap.blanks
    | ['\n'] => [' ']
    | '\n' :: more => more
    | breaks => breaks

end Gap

/-- A scalar's characters and the cursor after it; for a plain scalar also whether the gap after it
has a line end. -/
structure Scanned where
  chars : List Char
  isBroken : Bool := false
  next : Cursor
  deriving DecidableEq, Repr

def Scanned.prepend (s : Scanned) (chars : List Char) : Scanned :=
  { s with chars := chars ++ s.chars }

/-- Whether a plain scalar ends before the character `c`, which is no blank; `rest` follows `c`. -/
def endsPlain (isFlow : Bool) (c : Char) (rest : List Char) : Bool :=
  (c = ':' && separates rest) || (isFlow && isFlowMark c)

/-- Whether a plain scalar in a flow collection has a colon here that cannot stand there. -/
def isCutShort (isFlow : Bool) (c : Char) (rest : List Char) : Bool :=
  isFlow && c = ':' && rest.head?.any fun next => isFlowMark next || next = '?'

/-- The rest of a plain scalar and the gap after it. In a block its further lines are indented by
`least` blanks at least, and no tab stands among these. -/
def readPlain (isFlow : Bool) (least : Nat) (m : Mark) (gap : Gap) : List Char → Option Scanned
  | [] => some ⟨[], gap.isBroken, m, []⟩
  | c :: rest =>
    if isSpace c then
      if gap.isBroken && c = '\t' && m.column < least then none
      else readPlain isFlow least (m.after c) (gap.addBlank c) rest
    else if isBreak c then readPlain isFlow least (m.after c) (gap.addBreak c) rest
    else if gap ≠ {} && ((!isFlow && m.column < least) || c = '#') then
      some ⟨[], gap.isBroken, m, c :: rest⟩
    else if m.column = 0 && isMarker (c :: rest) then some ⟨[], gap.isBroken, m, c :: rest⟩
    else if isCutShort isFlow c rest then none
    else if endsPlain isFlow c rest then some ⟨[], gap.isBroken, m, c :: rest⟩
    else (readPlain isFlow least (m.after c) {} rest).map (·.prepend (gap.fold ++ [c]))

def readSingle (m : Mark) (gap : Gap) : List Char → Option Scanned
  | [] => none
  | '\'' :: '\'' :: rest => (readSingle (m.along 2) {} rest).map (·.prepend (gap.fold ++ ['\'']))
  | c :: rest =>
    if isSpace c then readSingle (m.after c) (gap.addBlank c) rest
    else if isBreak c then readSingle (m.after c) (gap.addBreak c) rest
    else if m.column = 0 && isMarker (c :: rest) then none
    else if c = '\'' then some ⟨gap.fold, false, m.after c, rest⟩
    else (readSingle (m.after c) {} rest).map (·.prepend (gap.fold ++ [c]))

def escaped? (letter : Char) : Option Char :=
  if letter = '0' then some '\x00'
  else if letter = 'a' then some '\x07'
  else if letter = 'b' then some '\x08'
  else if letter = 't' || letter = '\t' then some '\t'
  else if letter = 'n' then some '\n'
  else if letter = 'v' then some '\x0b'
  else if letter = 'f' then some '\x0c'
  else if letter = 'r' then some '\r'
  else if letter = 'e' then some '\x1b'
  else if letter = ' ' || letter = '"' || letter = '/' || letter = '\\' then some letter
  else if letter = 'N' then some '\u0085'
  else if letter = '_' then some '\u00a0'
  else if letter = 'L' then some '\u2028'
  else if letter = 'P' then some '\u2029'
  else none

def hexChar? (digits : List Char) : Option Char :=
  let code := Text.numeral 16 digits
  if digits.all Text.isHexDigit && code.isValidChar then some (Char.ofNat code) else none

def readDouble (m : Mark) (gap : Gap) : List Char → Option Scanned
  | [] => none
  | '\\' :: 'x' :: a :: b :: rest => do
    let c ← hexChar? [a, b]
    (readDouble (m.along 4) {} rest).map (·.prepend (gap.fold ++ [c]))
  | '\\' :: 'u' :: a :: b :: c :: d :: rest => do
    let c ← hexChar? [a, b, c, d]
    (readDouble (m.along 6) {} rest).map (·.prepend (gap.fold ++ [c]))
  | '\\' :: 'U' :: a :: b :: c :: d :: e :: f :: g :: h :: rest => do
    let c ← hexChar? [a, b, c, d, e, f, g, h]
    (readDouble (m.along 10) {} rest).map (·.prepend (gap.fold ++ [c]))
  | '\\' :: letter :: rest =>
    if isBreak letter then
      (readDouble ((m.along 1).after letter) { isJoined := true } rest).map (·.prepend gap.fold)
    else do
      let c ← escaped? letter
      (readDouble (m.along 2) {} rest).map (·.prepend (gap.fold ++ [c]))
  | c :: rest =>
    if isSpace c then readDouble (m.after c) (gap.addBlank c) rest
    else if isBreak c then readDouble (m.after c) (gap.addBreak c) rest
    else if c = '\\' || (m.column = 0 && isMarker (c :: rest)) then none
    else if c = '"' then some ⟨gap.fold, false, m.after c, rest⟩
    else (readDouble (m.after c) {} rest).map (·.prepend (gap.fold ++ [c]))

end EntityGraph.Yaml
