/-!
# Characters of YAML

The characters that a text may consist of, the classes that the rules of YAML speak of, and the
place of a character in a text. The carriage return, alone or before a line feed, and the next-line
control are written as line feeds before a text is looked at; the separators of lines and of
paragraphs end lines too and stay what they are.
-/
namespace EntityGraph.Yaml

def isAllowed (c : Char) : Bool :=
  let code := c.toNat
  code == 0x9 || code == 0xA || code == 0xD || (0x20 ≤ code && code ≤ 0x7E) || code == 0x85
    || (0xA0 ≤ code && code ≤ 0xFFFD) || 0x10000 ≤ code

def isSpace (c : Char) : Bool :=
  c = ' ' || c = '\t'

def isBreak (c : Char) : Bool :=
  c = '\n' || c = '\u2028' || c = '\u2029'

def isFlowMark (c : Char) : Bool :=
  c = ',' || c = '[' || c = ']' || c = '{' || c = '}'

/-- Whether the character can stand in the name of an anchor, a directive or a tag's handle. -/
def isWordChar (c : Char) : Bool :=
  c.isAlphanum || c = '_' || c = '-'

/-- Whether what follows an indicator separates it from the next token. -/
def separates : List Char → Bool
  | [] => true
  | c :: _ => isSpace c || isBreak c

def endsLine : List Char → Bool
  | [] => true
  | c :: _ => isBreak c

/-- Whether a marker of three equal characters stands here, which starts or ends a document if it
stands at the start of a line. -/
def isMarker : List Char → Bool
  | '-' :: '-' :: '-' :: rest => separates rest
  | '.' :: '.' :: '.' :: rest => separates rest
  | _ => false

def normalizeBreaks : List Char → List Char
  | '\r' :: '\n' :: rest => '\n' :: normalizeBreaks rest
  | '\r' :: rest => '\n' :: normalizeBreaks rest
  | '\u0085' :: rest => '\n' :: normalizeBreaks rest
  | c :: rest => c :: normalizeBreaks rest
  | [] => []

/-- The place of a character: how many bytes, lines and characters of its line come before it. -/
structure Mark where
  index : Nat := 0
  line : Nat := 0
  column : Nat := 0
  deriving DecidableEq, Repr

/-- The place after the character `c`. -/
def Mark.after (m : Mark) (c : Char) : Mark :=
  if isBreak c then ⟨m.index + c.utf8Size, m.line + 1, 0⟩
  else ⟨m.index + c.utf8Size, m.line, m.column + 1⟩

def Mark.along (m : Mark) (count : Nat) : Mark :=
  ⟨m.index + count, m.line, m.column + count⟩

/-- The rest of a text from a place on. -/
structure Cursor where
  mark : Mark := {}
  rest : List Char
  deriving DecidableEq, Repr

namespace Cursor

def skipWhile (p : Char → Bool) (m : Mark) : List Char → Cursor
  | [] => ⟨m, []⟩
  | c :: rest => if p c then skipWhile p (m.after c) rest else ⟨m, c :: rest⟩

def drop (c : Cursor) (count : Nat) : Cursor :=
  ⟨c.mark.along count, c.rest.drop count⟩

def skipSpaces (c : Cursor) : Cursor :=
  skipWhile isSpace c.mark c.rest

/-- The cursor after blanks, a comment and the end of the line; `none` if something else follows
before the line ends. -/
def finishLine? (c : Cursor) : Option Cursor :=
  let c := c.skipSpaces
  let c := match c.rest with
    | '#' :: _ => skipWhile (!isBreak ·) c.mark c.rest
    | _ => c
  match c.rest with
  | [] => some c
  | x :: rest => if isBreak x then some ⟨c.mark.after x, rest⟩ else none

end Cursor
end EntityGraph.Yaml
