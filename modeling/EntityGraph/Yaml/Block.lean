import EntityGraph.Yaml.Scalar

/-!
# Block scalars

A block scalar is the text of the lines below its header that are indented far enough. A literal
scalar keeps its line ends; a folded one joins lines by blanks, unless one of them is empty or
starts with a blank. The header may say how far the lines are indented and whether the line ends
after the last line are dropped, reduced to one or kept.
-/
namespace EntityGraph.Yaml

inductive Chomping where
  | strip
  | clip
  | keep
  deriving DecidableEq, Repr

structure BlockHeader where
  chomping : Chomping := .clip
  /-- The indentation that the header gives, beyond that of the block around it. -/
  increment : Option Nat := none
  deriving DecidableEq, Repr

def chomping? (c : Char) : Option Chomping :=
  if c = '+' then some .keep else if c = '-' then some .strip else none

def increment? (c : Char) : Option Nat :=
  if c.isDigit && c ≠ '0' then some (c.toNat - '0'.toNat) else none

def readHeader (c : Cursor) : BlockHeader × Cursor :=
  match c.rest with
  | a :: b :: _ =>
    match chomping? a, increment? a, chomping? b, increment? b with
    | some chomping, _, _, some increment => (⟨chomping, some increment⟩, c.drop 2)
    | some chomping, _, _, none => (⟨chomping, none⟩, c.drop 1)
    | none, some increment, some chomping, _ => (⟨chomping, some increment⟩, c.drop 2)
    | none, some increment, none, _ => (⟨.clip, some increment⟩, c.drop 1)
    | none, none, _, _ => ({}, c)
  | [a] =>
    match chomping? a, increment? a with
    | some chomping, _ => (⟨chomping, none⟩, c.drop 1)
    | none, some increment => (⟨.clip, some increment⟩, c.drop 1)
    | none, none => ({}, c)
  | [] => ({}, c)

/-- The empty lines before the next line with content, and the indentation skipped. -/
structure Margin where
  breaks : List Char
  /-- The largest column that a line's indentation reaches. -/
  widest : Nat
  next : Cursor
  deriving DecidableEq, Repr

/-- Skip indentation, up to column `indent` if it is known, and empty lines. A tab is no
indentation. -/
def readMargin (indent : Option Nat) (m : Mark) (widest : Nat) : List Char → Option Margin
  | [] => some ⟨[], max widest m.column, m, []⟩
  | c :: rest =>
    let isInside := indent.all (m.column < ·)
    if isInside && c = ' ' then readMargin indent (m.after c) widest rest
    else if isInside && c = '\t' then none
    else if isBreak c then
      (readMargin indent (m.after c) (max widest m.column) rest).map fun margin =>
        { margin with breaks := c :: margin.breaks }
    else some ⟨[], max widest m.column, m, c :: rest⟩

def readLine (m : Mark) : List Char → List Char × List Char × Cursor
  | [] => ([], [], ⟨m, []⟩)
  | c :: rest =>
    if isBreak c then ([], [c], ⟨m.after c, rest⟩)
    else
      let (line, ending, next) := readLine (m.after c) rest
      (c :: line, ending, next)

/-- What stands before a line: the end of the last line and the empty lines after it. In a folded
scalar a line end between two lines that start without a blank stands for a blank, or for nothing
if empty lines follow it. -/
def lineGap (isLiteral hadBlank hasBlank : Bool) (ending breaks : List Char) : List Char :=
  if !isLiteral && ending == ['\n'] && !hadBlank && !hasBlank then
    if breaks.isEmpty then [' '] else breaks
  else ending ++ breaks

def Chomping.tail (chomping : Chomping) (ending breaks : List Char) : List Char :=
  match chomping with
  | strip => []
  | clip => ending
  | keep => ending ++ breaks

/-- The lines at column `indent`, at most `fuel` of them. `ending` is the end of the line before,
and `hadBlank` says whether that line started with a blank. -/
def readLines (isLiteral : Bool) (chomping : Chomping) (indent : Nat) :
    Nat → (hadBlank : Bool) → (ending : List Char) → Margin → Option Scanned
  | 0, _, _, _ => none
  | fuel + 1, hadBlank, ending, ⟨breaks, _, next⟩ =>
    match next.rest with
    | [] => some ⟨chomping.tail ending breaks, false, next⟩
    | c :: _ =>
      if next.mark.column ≠ indent then some ⟨chomping.tail ending breaks, false, next⟩
      else do
        let (line, newEnding, after) := readLine next.mark next.rest
        let margin ← readMargin (some indent) after.mark 0 after.rest
        let scanned ← readLines isLiteral chomping indent fuel (isSpace c) newEnding margin
        return scanned.prepend (lineGap isLiteral hadBlank (isSpace c) ending breaks ++ line)

/-- A block scalar behind its indicator, in a block whose content starts at column `least` or
further right. -/
def readBlockScalar (isLiteral : Bool) (least : Nat) (c : Cursor) : Option Scanned := do
  let (header, c) := readHeader c
  let c ← c.finishLine?
  let given := header.increment.map fun increment => (least - 1) + increment
  let margin ← readMargin given c.mark 0 c.rest
  let indent := given.getD (max margin.widest (max least 1))
  readLines isLiteral header.chomping indent (c.rest.length + 1) false [] margin

end EntityGraph.Yaml
