import EntityGraph.Text.Blank
import EntityGraph.Unicode.Alphanumeric

/-!
# Environment files

A file of assignments, one to a line, that stand for environment variables which are not set. A
line goes on where quotes are open at its end. Empty lines and comments are skipped, a value may
stand in quotes and may use variables that are set or were assigned before, and what follows the
first line that is no assignment is not read.
-/
namespace EntityGraph.Environment

/-- Where the reading of a line stands, as far as it decides whether the line goes on. -/
inductive LineState where
  | complete
  | blank
  | escape
  | weak
  | weakEscape
  | strong
  | strongEscape
  deriving DecidableEq, Repr

def LineState.outside (c : Char) : LineState :=
  if c = '\\' then escape else if c = '"' then weak else if c = '\'' then strong else complete

/-- The state after a character; `none` if a comment starts with it. A blank counts only if the
character before it does not. -/
def LineState.next? (state : LineState) (c : Char) : Option LineState :=
  match state with
  | complete =>
    some (if Text.isBlank c && c ≠ '\n' && c ≠ '\r' then blank else outside c)
  | blank => if c = '#' then none else some (outside c)
  | escape => some complete
  | weak => some (if c = '\\' then weakEscape else if c = '"' then complete else weak)
  | weakEscape => some weak
  | strong => some (if c = '\\' then strongEscape else if c = '\'' then complete else strong)
  | strongEscape => some strong

def scanLine (state : LineState) : List Char → List Char × Option LineState
  | [] => ([], some state)
  | c :: rest =>
    match state.next? c with
    | none => ([], none)
    | some next =>
      let (kept, last) := scanLine next rest
      (c :: kept, last)

def linesOf (s : List Char) : List (List Char) :=
  match (Text.splitAt '\n' s).reverse with
  | [] => []
  | last :: before =>
    (before.reverse.map (· ++ ['\n'])) ++ (if last = [] then [] else [last])

def isComment (line : List Char) : Bool :=
  (line.dropWhile Text.isBlank).head? == some '#'

/-- The lines that go on joined, from a line that starts with `before`. A line that is not complete
at the end of the file does not count. -/
def joinLines (state : LineState) (before : List Char) : List (List Char) → List (List Char)
  | [] => []
  | line :: rest =>
    if isComment (before ++ line) then joinLines .complete [] rest
    else
      match scanLine state line with
      | (kept, none) => (before ++ kept) :: joinLines .complete [] rest
      | (_, some .complete) => (before ++ line) :: joinLines .complete [] rest
      | (_, some state) => joinLines state (before ++ line) rest

def isNameChar (c : Char) : Bool :=
  c.isAlphanum || c == '_' || c == '.'

def escaped? (c : Char) : Option Char :=
  if c = 'n' then some '\n'
  else if c = '\\' || c = '\'' || c = '"' || c = '$' || c = ' ' then some c
  else none

/-- Where the reading of a value stands; `isQuoted` tells whether weak quotes are open. -/
inductive ValueState where
  | text (isQuoted : Bool)
  | escape (isQuoted : Bool)
  | strong
  /-- The name of a variable after a dollar sign. -/
  | named (isQuoted : Bool) (name : List Char)
  /-- The name of a variable after a dollar sign and a brace. -/
  | braced (isQuoted : Bool) (name : List Char)
  /-- After a blank, before a comment. -/
  | ended
  deriving DecidableEq, Repr

/-- The characters of a value, where `get` gives the values of variables. Quotes may open anywhere.
A name after a dollar sign consists of letters and digits, and the character that ends it stands for
itself. -/
def readValue (get : List Char → List Char) : ValueState → List Char → Option (List Char)
  | .text isQuoted, [] => if isQuoted then none else some []
  | .escape isQuoted, [] => if isQuoted then none else some []
  | .strong, [] => none
  | .named isQuoted name, [] => if isQuoted then none else some (get name)
  | .braced _ _, [] => none
  | .ended, [] => some []
  | .ended, c :: rest =>
    if c = ' ' || c = '\t' then readValue get .ended rest else if c = '#' then some [] else none
  | .escape isQuoted, c :: rest => do
    return (← escaped? c) :: (← readValue get (.text isQuoted) rest)
  | .strong, c :: rest =>
    if c = '\'' then readValue get (.text false) rest else (readValue get .strong rest).map (c :: ·)
  | .named isQuoted name, c :: rest =>
    if Unicode.isAlphanumeric c then readValue get (.named isQuoted (name ++ [c])) rest
    else if c = '{' && name = [] then readValue get (.braced isQuoted []) rest
    else if c = '$' then (readValue get (.named isQuoted []) rest).map (get name ++ ·)
    else (readValue get (.text isQuoted) rest).map (get name ++ c :: ·)
  | .braced isQuoted name, c :: rest =>
    if c = '}' then (readValue get (.text isQuoted) rest).map (get name ++ ·)
    else readValue get (.braced isQuoted (name ++ [c])) rest
  | .text isQuoted, c :: rest =>
    if c = '$' then readValue get (.named isQuoted []) rest
    else if c = '\\' then readValue get (.escape isQuoted) rest
    else if c = '"' then readValue get (.text !isQuoted) rest
    else if isQuoted then (readValue get (.text isQuoted) rest).map (c :: ·)
    else if c = '\'' then readValue get .strong rest
    else if c = ' ' || c = '\t' then readValue get .ended rest
    else (readValue get (.text isQuoted) rest).map (c :: ·)

def valueOf (environment : List (String × String)) (name : List Char) : List Char :=
  ((environment.lookup (String.ofList name)).getD "").toList

def readName (line : List Char) : Option (String × List Char) :=
  let name := line.takeWhile isNameChar
  if name.head?.any fun c => c.isAlpha || c == '_' then
    some (String.ofList name, (line.drop name.length).dropWhile Text.isBlank)
  else none

/-- The name that a line assigns to, which may follow the word `export`, and the text after the
equals sign. -/
def readTarget (line : List Char) : Option (String × List Char) := do
  match ← readName line with
  | (name, '=' :: rest) => return (name, rest)
  | ("export", rest) =>
    match ← readName rest with
    | (name, '=' :: rest) => return (name, rest)
    | _ => none
  | _ => none

def readAssignment (environment : List (String × String)) (line : List Char) :
    Option (String × String) := do
  let (name, rest) ← readTarget line
  let rest := rest.dropWhile Text.isBlank
  let value ←
    if rest.head? == some '#' then some []
    else readValue (valueOf environment) (.text false) rest
  return (name, String.ofList value)

def readLines (environment : List (String × String)) : List (List Char) → List (String × String)
  | [] => environment
  | line :: rest =>
    match Text.trimBlank line with
    | [] => readLines environment rest
    | '#' :: _ => readLines environment rest
    | line =>
      match readAssignment environment line with
      | some assignment => readLines (environment ++ [assignment]) rest
      | none => environment

/-- The variables that are set, and those that a file sets besides. A mark of the byte order before
the file is skipped. -/
def extend (environment : List (String × String)) (file : Option String) : List (String × String) :=
  match (file.map String.toList).getD [] with
  | '\ufeff' :: rest => readLines environment (joinLines .complete [] (linesOf rest))
  | text => readLines environment (joinLines .complete [] (linesOf text))

end EntityGraph.Environment
