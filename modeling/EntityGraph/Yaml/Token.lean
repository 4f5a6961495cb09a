import EntityGraph.Yaml.Block
import EntityGraph.Yaml.Tag

/-!
# Tokens of YAML

A text is cut into tokens from left to right. Columns tell where block collections start and end,
which tokens of their own say. That a scalar, an alias or a flow collection is a key shows only at
the colon behind it, so the place where a key may start is remembered until then: the tokens that
open a key are put there afterwards. A key has to be on one line and may have at most 1024 bytes.
-/
namespace EntityGraph.Yaml

inductive Token where
  | directive (directive : Directive)
  | documentStart
  | documentEnd
  | blockSequence
  | blockMapping
  | blockEnd
  | flowSequence
  | flowSequenceEnd
  | flowMapping
  | flowMappingEnd
  | entry
  | comma
  | key
  | value
  /-- A node that stands for the node with the anchor of that number. -/
  | alias (number : Nat)
  | anchor (number : Nat)
  | tag (tag : RawTag)
  | scalar (style : Style) (text : String)
  deriving DecidableEq, Repr

/-- A place where a key may start: how many tokens come before it, and whether a key has to start
there, because nothing else can stand at that column. -/
structure KeyPlace where
  mark : Mark
  position : Nat
  isRequired : Bool
  deriving DecidableEq, Repr

structure Lexer where
  cursor : Cursor
  /-- The tokens so far, the last one first. -/
  tokens : List Token := []
  count : Nat := 0
  /-- The columns of the open block collections, the innermost first. -/
  indents : List Nat := []
  isKeyAllowed : Bool := true
  place : Option KeyPlace := none
  /-- The places that belong to the collections around each open flow collection, the innermost
  first. -/
  outer : List (Option KeyPlace) := []
  /-- The numbers of the anchors by name, the last one first. -/
  anchors : List (String × Nat) := []
  deriving Repr

namespace Lexer

def isFlow (l : Lexer) : Bool :=
  !l.outer.isEmpty

def column (l : Lexer) : Nat :=
  l.cursor.mark.column

/-- The least column of what belongs to the innermost block collection. -/
def least (l : Lexer) : Nat :=
  match l.indents with
  | [] => 0
  | indent :: _ => indent + 1

def push (l : Lexer) (token : Token) : Lexer :=
  { l with tokens := token :: l.tokens, count := l.count + 1 }

/-- Put tokens where `position` tokens come before them. -/
def insert (l : Lexer) (position : Nat) (added : List Token) : Lexer :=
  let after := l.count - position
  { l with
    tokens := l.tokens.take after ++ added.reverse ++ l.tokens.drop after
    count := l.count + added.length }

def dropPlace (l : Lexer) : Option Lexer :=
  if l.place.any (·.isRequired) then none else some { l with place := none }

def markPlace (l : Lexer) : Option Lexer :=
  if l.isKeyAllowed then do
    let l ← l.dropPlace
    let isRequired := !l.isFlow && l.indents.head? == some l.column
    return { l with place := some ⟨l.cursor.mark, l.count, isRequired⟩ }
  else some l

def isStale (now : Mark) (place : KeyPlace) : Bool :=
  place.mark.line < now.line || place.mark.index + 1024 < now.index

def freshPlace (now : Mark) (place : Option KeyPlace) : Option (Option KeyPlace) :=
  match place with
  | none => some none
  | some place =>
    if !isStale now place then some (some place)
    else if place.isRequired then none
    else some none

def dropStale (l : Lexer) : Option Lexer := do
  return { l with
    place := ← freshPlace l.cursor.mark l.place
    outer := ← l.outer.mapM (freshPlace l.cursor.mark) }

/-- Open a block collection at a column that is further right than the innermost one. -/
def openBlock (l : Lexer) (column position : Nat) (token : Token) : Lexer :=
  if !l.isFlow && l.indents.all (· < column) then
    { l.insert position [token] with indents := column :: l.indents }
  else l

def closeBlocks (l : Lexer) (p : Nat → Bool) : Lexer :=
  if l.isFlow then l
  else
    let closed := l.indents.takeWhile p
    { l.insert l.count (closed.map fun _ => Token.blockEnd) with indents := l.indents.dropWhile p }

/-- Blanks and comments before the next token. A tab is no blank where a block key may start. -/
def skipGap (isFlow : Bool) (isKeyAllowed inComment : Bool) (m : Mark) : List Char → Cursor × Bool
  | [] => (⟨m, []⟩, isKeyAllowed)
  | c :: rest =>
    if isBreak c then skipGap isFlow (isKeyAllowed || !isFlow) false (m.after c) rest
    else if inComment || c = ' ' || (c = '\t' && (isFlow || !isKeyAllowed)) || c = '#' then
      skipGap isFlow isKeyAllowed (inComment || c = '#') (m.after c) rest
    else (⟨m, c :: rest⟩, isKeyAllowed)

def skip (l : Lexer) : Lexer :=
  let (cursor, isKeyAllowed) := skipGap l.isFlow l.isKeyAllowed false l.cursor.mark l.cursor.rest
  { l with cursor, isKeyAllowed }

/-- Go on behind `count` characters, which make the token. -/
def take (l : Lexer) (count : Nat) (token : Token) (isKeyAllowed : Bool) : Lexer :=
  { l.push token with cursor := l.cursor.drop count, isKeyAllowed }

def takeBetween (l : Lexer) (token : Token) (next : Cursor) : Option Lexer := do
  let l ← (l.closeBlocks fun _ => true).dropPlace
  return { l.push token with cursor := next, isKeyAllowed := false }

def takeFlowStart (l : Lexer) (token : Token) : Option Lexer := do
  let l ← l.markPlace
  return { l.take 1 token true with place := none, outer := l.place :: l.outer }

def takeFlowEnd (l : Lexer) (token : Token) : Option Lexer := do
  let l ← l.dropPlace
  return { l.take 1 token false with place := (l.outer.head?).join, outer := l.outer.tail }

def takeComma (l : Lexer) : Option Lexer := do
  let l ← l.dropPlace
  return l.take 1 .comma true

def takeEntry (l : Lexer) : Option Lexer := do
  if !l.isFlow && !l.isKeyAllowed then none
  let l ← (l.openBlock l.column l.count .blockSequence).dropPlace
  return l.take 1 .entry true

def takeKey (l : Lexer) : Option Lexer := do
  if !l.isFlow && !l.isKeyAllowed then none
  let l ← (l.openBlock l.column l.count .blockMapping).dropPlace
  return l.take 1 .key (!l.isFlow)

/-- The colon before a value. What stands at the remembered place was a key. -/
def takeValue (l : Lexer) : Option Lexer :=
  match l.place with
  | some place =>
    let l := l.insert place.position [.key]
    let l := l.openBlock place.mark.column place.position .blockMapping
    some { l.take 1 .value false with place := none }
  | none =>
    if !l.isFlow && !l.isKeyAllowed then none
    else
      let l := l.openBlock l.column l.count .blockMapping
      some (l.take 1 .value (!l.isFlow))

def takeAnchor (l : Lexer) : Option Lexer := do
  let l ← l.markPlace
  let (name, next) ← readAnchorName (l.cursor.drop 1)
  let number := (l.anchors.map Prod.fst).eraseDups.length
  return { l.push (.anchor number) with
    cursor := next, isKeyAllowed := false, anchors := (name, number) :: l.anchors }

def takeAlias (l : Lexer) : Option Lexer := do
  let l ← l.markPlace
  let (name, next) ← readAnchorName (l.cursor.drop 1)
  let number ← l.anchors.lookup name
  return { l.push (.alias number) with cursor := next, isKeyAllowed := false }

def takeTag (l : Lexer) : Option Lexer := do
  let l ← l.markPlace
  let (tag, next) ← readTag (l.cursor.drop 1)
  if !separates next.rest && !(l.isFlow && next.rest.head? == some ',') then none
  return { l.push (.tag tag) with cursor := next, isKeyAllowed := false }

def takeBlockScalar (l : Lexer) (isLiteral : Bool) : Option Lexer := do
  let l ← l.dropPlace
  let scanned ← readBlockScalar isLiteral l.least (l.cursor.drop 1)
  let style := if isLiteral then Style.literal else Style.quoted
  return { l.push (.scalar style (String.ofList scanned.chars)) with
    cursor := scanned.next, isKeyAllowed := true }

def takeQuoted (l : Lexer) (read : Mark → Gap → List Char → Option Scanned) : Option Lexer := do
  let l ← l.markPlace
  let start := l.cursor.drop 1
  let scanned ← read start.mark {} start.rest
  return { l.push (.scalar .quoted (String.ofList scanned.chars)) with
    cursor := scanned.next, isKeyAllowed := false }

def takePlain (l : Lexer) : Option Lexer := do
  let l ← l.markPlace
  let scanned ← readPlain l.isFlow l.least l.cursor.mark {} l.cursor.rest
  return { l.push (.scalar .plain (String.ofList scanned.chars)) with
    cursor := scanned.next, isKeyAllowed := scanned.isBroken }

def startsPlain (isFlow : Bool) (c : Char) (rest : List Char) : Bool :=
  !("-?:,[]\x7b\x7d#&*!|>'\"%@\x60".toList.contains c || isSpace c)
    || (c = '-' && !rest.head?.any isSpace)
    || (!isFlow && (c = '?' || c = ':') && !separates rest)

def takeToken (l : Lexer) (c : Char) (rest : List Char) : Option Lexer :=
  let isIndicator := separates rest
  if l.column = 0 && c = '%' then do
    let (directive, next) ← readDirective (l.cursor.drop 1)
    l.takeBetween (.directive directive) next
  else if l.column = 0 && isMarker (c :: rest) then
    l.takeBetween (if c = '-' then .documentStart else .documentEnd) (l.cursor.drop 3)
  else if c = '[' then l.takeFlowStart .flowSequence
  else if c = '{' then l.takeFlowStart .flowMapping
  else if c = ']' then l.takeFlowEnd .flowSequenceEnd
  else if c = '}' then l.takeFlowEnd .flowMappingEnd
  else if c = ',' then l.takeComma
  else if c = '-' && isIndicator then l.takeEntry
  else if c = '?' && (l.isFlow || isIndicator) then l.takeKey
  else if c = ':' && (l.isFlow || isIndicator) then l.takeValue
  else if c = '*' then l.takeAlias
  else if c = '&' then l.takeAnchor
  else if c = '!' then l.takeTag
  else if c = '|' && !l.isFlow then l.takeBlockScalar true
  else if c = '>' && !l.isFlow then l.takeBlockScalar false
  else if c = '\'' then l.takeQuoted readSingle
  else if c = '"' then l.takeQuoted readDouble
  else if startsPlain l.isFlow c rest then l.takePlain
  else none

/-- Read tokens to the end of the text, at most `fuel` of them. -/
def run : Nat → Lexer → Option Lexer
  | 0, _ => none
  | fuel + 1, l => do
    let l ← l.skip.dropStale
    let l := l.closeBlocks (l.column < ·)
    match l.cursor.rest with
    | [] => (l.closeBlocks fun _ => true).dropPlace
    | c :: rest => do
      let l ← l.takeToken c rest
      run fuel l

end Lexer

/-- The tokens of a text. A mark of the byte order before it is skipped and takes up a column. -/
def tokens? (text : String) : Option (List Token) := do
  let chars := text.toList
  if !chars.all isAllowed then none
  let chars := normalizeBreaks chars
  let cursor : Cursor := match chars with
    | '\ufeff' :: rest => ⟨({} : Mark).after '\ufeff', rest⟩
    | chars => ⟨{}, chars⟩
  let l ← Lexer.run (chars.length + 1) { cursor }
  return l.tokens.reverse

end EntityGraph.Yaml
