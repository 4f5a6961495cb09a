import EntityGraph.Yaml.Scalar

/-!
# Tags, anchors and directives

A tag is a handle, which a directive or a convention expands, and a suffix, or it is written in
full between angle brackets. A suffix may hold percent escapes. The readers start behind the
indicator of what they read.
-/
namespace EntityGraph.Yaml

def readWord (c : Cursor) : String × Cursor :=
  let word := c.rest.takeWhile isWordChar
  (String.ofList word, c.drop word.length)

/-- The name of an anchor or an alias, which has to be followed by a blank, by the end of the line
or by one of some indicators. -/
def readAnchorName (c : Cursor) : Option (String × Cursor) :=
  let (name, next) := readWord c
  let isSeparated := separates next.rest
    || next.rest.head?.any fun mark => "?:,]\x7d%@\x60".toList.contains mark
  if name.isEmpty || !isSeparated then none else some (name, next)

def isTagChar (isFull : Bool) (c : Char) : Bool :=
  isWordChar c || ";/?:@&=+$.%!~*'()".toList.contains c
    || (isFull && (c = ',' || c = '[' || c = ']'))

def byte? (a b : Char) : Option Nat :=
  if Text.isHexDigit a && Text.isHexDigit b then some (Text.numeral 16 [a, b]) else none

def utf8Width? (first : Nat) : Option Nat :=
  if first < 0x80 then some 1
  else if 0xC0 ≤ first && first < 0xE0 then some 2
  else if 0xE0 ≤ first && first < 0xF0 then some 3
  else if 0xF0 ≤ first && first < 0xF8 then some 4
  else none

/-- Percent escapes of the bytes that continue a character; `code` holds the bits so far. -/
def readContinuation (code : Nat) : Nat → List Char → Option (Nat × List Char)
  | 0, s => some (code, s)
  | more + 1, '%' :: a :: b :: rest => do
    let byte ← byte? a b
    if 0x80 ≤ byte && byte < 0xC0 then readContinuation (64 * code + byte % 64) more rest else none
  | _ + 1, _ => none

def readEscaped : List Char → Option (Char × List Char)
  | '%' :: a :: b :: rest => do
    let byte ← byte? a b
    let width ← utf8Width? byte
    let bits := if width = 1 then byte else byte % Nat.pow 2 (7 - width)
    let (code, rest) ← readContinuation bits (width - 1) rest
    return (Char.ofNat code, rest)
  | _ => none

/-- The characters of a tag, escapes read, up to the first one that cannot stand there; `fuel`
bounds their number. -/
def readTagChars (isFull : Bool) : Nat → List Char → Option (List Char × List Char)
  | 0, s => some ([], s)
  | _ + 1, [] => some ([], [])
  | fuel + 1, c :: rest =>
    if c = '%' then do
      let (x, rest) ← readEscaped (c :: rest)
      let (chars, rest) ← readTagChars isFull fuel rest
      return (x :: chars, rest)
    else if isTagChar isFull c then do
      let (chars, rest) ← readTagChars isFull fuel rest
      return (c :: chars, rest)
    else some ([], c :: rest)

def readTagText (isFull : Bool) (c : Cursor) : Option (List Char × Cursor) :=
  (readTagChars isFull c.rest.length c.rest).map fun (chars, rest) =>
    (chars, c.drop (c.rest.length - rest.length))

structure RawTag where
  handle : String
  suffix : String
  deriving DecidableEq, Repr

/-- A tag behind its exclamation mark. A tag of that mark alone has it as suffix. -/
def readTag (c : Cursor) : Option (RawTag × Cursor) :=
  match c.rest with
  | '<' :: _ => do
    let (suffix, next) ← readTagText true (c.drop 1)
    if suffix.isEmpty then none
    match next.rest with
    | '>' :: _ => return (⟨"", String.ofList suffix⟩, next.drop 1)
    | _ => none
  | _ => do
    let (word, next) := readWord c
    match next.rest with
    | '!' :: _ => do
      let (suffix, next) ← readTagText false (next.drop 1)
      if suffix.isEmpty then none
      return (⟨"!" ++ word ++ "!", String.ofList suffix⟩, next)
    | _ => do
      let (more, next) ← readTagText false next
      let suffix := word ++ String.ofList more
      return (if suffix.isEmpty then ⟨"", "!"⟩ else ⟨"!", suffix⟩, next)

/-- What a directive says: the version of the language, or what a handle stands for. -/
inductive Directive where
  | version (major minor : Nat)
  | tag (handle expansion : String)
  deriving DecidableEq, Repr

def readVersionNumber (c : Cursor) : Option (Nat × Cursor) :=
  let digits := c.rest.takeWhile Char.isDigit
  if digits.isEmpty || 9 < digits.length then none
  else
    let value := digits.foldl (fun value digit => 10 * value + (digit.toNat - '0'.toNat)) 0
    some (value, c.drop digits.length)

def readVersion (c : Cursor) : Option (Directive × Cursor) := do
  let (major, next) ← readVersionNumber c.skipSpaces
  match next.rest with
  | '.' :: _ => do
    let (minor, next) ← readVersionNumber (next.drop 1)
    return (.version major minor, next)
  | _ => none

def readHandle (c : Cursor) : Option (String × Cursor) :=
  match c.rest with
  | '!' :: _ =>
    let (word, next) := readWord (c.drop 1)
    match next.rest with
    | '!' :: _ => some ("!" ++ word ++ "!", next.drop 1)
    | _ => if word.isEmpty then some ("!", next) else none
  | _ => none

def readTagDirective (c : Cursor) : Option (Directive × Cursor) := do
  let (handle, next) ← readHandle c.skipSpaces
  if !(next.rest.head?.any isSpace) then none
  let (expansion, next) ← readTagText true next.skipSpaces
  if expansion.isEmpty || !separates next.rest then none
  return (.tag handle (String.ofList expansion), next)

def readDirective (c : Cursor) : Option (Directive × Cursor) := do
  let (name, next) := readWord c
  if !separates next.rest then none
  let (directive, next) ←
    if name = "YAML" then readVersion next
    else if name = "TAG" then readTagDirective next
    else none
  return (directive, ← next.finishLine?)

/-- What the handles stand for: what the directives say, and the two that need no directive. -/
def handles (directives : List Directive) : List (String × String) :=
  let given := directives.filterMap fun
    | .tag handle expansion => some (handle, expansion)
    | .version _ _ => none
  given ++ [("!", "!"), ("!!", "tag:yaml.org,2002:")]

def RawTag.resolve? (defined : List (String × String)) (tag : RawTag) : Option String :=
  if tag.handle.isEmpty then some tag.suffix
  else (defined.lookup tag.handle).map (· ++ tag.suffix)

/-- At most one directive gives the version, which has to be known, and none defines a handle
again. -/
def areConsistent : List Directive → Bool
  | [] => true
  | .version major minor :: rest =>
    major == 1 && (minor == 1 || minor == 2)
      && rest.all (fun | .version _ _ => false | .tag _ _ => true) && areConsistent rest
  | .tag handle _ :: rest =>
    rest.all (fun | .version _ _ => true | .tag other _ => other != handle) && areConsistent rest

end EntityGraph.Yaml
