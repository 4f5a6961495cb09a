import EntityGraph.Json.Basic
import EntityGraph.Text.Hex

/-!
# Reading JSON

The grammar of the standard: white space is blank, tab, line feed or carriage return,
control characters do not stand bare in strings, numerals have no superfluous zero.
Every call of a reader either consumes a character or is followed by one that does, so
twice the length of the text bounds the nesting of calls.
-/
namespace EntityGraph.Json

def isSpace (c : Char) : Bool :=
  c = ' ' || c = '\n' || c = '\t' || c = '\r'

def skipSpace (s : List Char) : List Char :=
  s.dropWhile isSpace

def escaped? (letter : Char) : Option Char :=
  if letter = '"' ∨ letter = '\\' ∨ letter = '/' then some letter
  else if letter = 'b' then some '\x08'
  else if letter = 'f' then some '\x0c'
  else if letter = 'n' then some '\n'
  else if letter = 'r' then some '\r'
  else if letter = 't' then some '\t'
  else none

/-- The code units up to the closing quote, and what follows it. Surrogates are still
apart. -/
def readUnits : List Char → Option (List Nat × List Char)
  | [] => none
  | '"' :: rest => some ([], rest)
  | '\\' :: 'u' :: a :: b :: c :: d :: rest => do
    if !([a, b, c, d].all Text.isHexDigit) then none
    let (units, rest) ← readUnits rest
    return (Text.numeral 16 [a, b, c, d] :: units, rest)
  | '\\' :: letter :: rest => do
    let c ← escaped? letter
    let (units, rest) ← readUnits rest
    return (c.toNat :: units, rest)
  | c :: rest => do
    if c = '\\' ∨ c.toNat < 0x20 then none
    let (units, rest) ← readUnits rest
    return (c.toNat :: units, rest)

def isHighSurrogate (unit : Nat) : Bool :=
  0xD800 ≤ unit && unit ≤ 0xDBFF

def isLowSurrogate (unit : Nat) : Bool :=
  0xDC00 ≤ unit && unit ≤ 0xDFFF

/-- The characters of code units, each high surrogate joined with the low one after it. -/
def joinUnits? : List Nat → Option (List Char)
  | [] => some []
  | [unit] =>
    if isHighSurrogate unit || isLowSurrogate unit then none else some [Char.ofNat unit]
  | unit :: next :: rest =>
    if isHighSurrogate unit then
      if isLowSurrogate next then
        (joinUnits? rest).map (Char.ofNat (0x10000 + (unit - 0xD800) * 0x400 + (next - 0xDC00)) :: ·)
      else none
    else if isLowSurrogate unit then none
    else (joinUnits? (next :: rest)).map (Char.ofNat unit :: ·)

def stringOfUnits (units : List Nat) : Json :=
  match joinUnits? units with
  | some chars => string (String.ofList chars)
  | none => unreadable

def readDigits1 (s : List Char) : Option (List Char × List Char) :=
  let digits := s.takeWhile Char.isDigit
  if digits = [] then none else some (digits, s.dropWhile Char.isDigit)

/-- The digits before the point: a single zero, or a numeral that starts with another digit. -/
def readWhole : List Char → Option (List Char × List Char)
  | '0' :: rest => some (['0'], rest)
  | s => readDigits1 s

def readFraction : List Char → Option (List Char × List Char)
  | '.' :: rest => do
    let (digits, rest) ← readDigits1 rest
    return ('.' :: digits, rest)
  | s => some ([], s)

def readExponent : List Char → Option (List Char × List Char)
  | [] => some ([], [])
  | letter :: rest =>
    if letter = 'e' ∨ letter = 'E' then do
      let (sign, rest) :=
        match rest with
        | '+' :: rest => (['+'], rest)
        | '-' :: rest => (['-'], rest)
        | rest => ([], rest)
      let (digits, rest) ← readDigits1 rest
      return (letter :: (sign ++ digits), rest)
    else some ([], letter :: rest)

def readNumber (s : List Char) : Option (Json × List Char) := do
  let (sign, rest) :=
    match s with
    | '-' :: rest => (['-'], rest)
    | rest => ([], rest)
  let (whole, rest) ← readWhole rest
  let (fraction, rest) ← readFraction rest
  let (exponent, rest) ← readExponent rest
  return (number (String.ofList (sign ++ whole ++ fraction ++ exponent)), rest)

def readName (s : List Char) : Option (Option String × List Char) :=
  match skipSpace s with
  | '"' :: rest =>
    match readUnits rest with
    | some (units, rest) =>
      match skipSpace rest with
      | ':' :: rest => some ((joinUnits? units).map String.ofList, rest)
      | _ => none
    | none => none
  | _ => none

def objectOfMembers (members : List (Option String × Json)) : Json :=
  match members.mapM fun (name, value) => name.map (·, value) with
  | some members => object members
  | none => unreadable

mutual

def readValue : Nat → List Char → Option (Json × List Char)
  | 0, _ => none
  | fuel + 1, s =>
    match skipSpace s with
    | 'n' :: 'u' :: 'l' :: 'l' :: rest => some (null, rest)
    | 't' :: 'r' :: 'u' :: 'e' :: rest => some (bool true, rest)
    | 'f' :: 'a' :: 'l' :: 's' :: 'e' :: rest => some (bool false, rest)
    | '"' :: rest => (readUnits rest).map fun (units, rest) => (stringOfUnits units, rest)
    | '[' :: rest =>
      match skipSpace rest with
      | ']' :: rest => some (array [], rest)
      | rest => (readItems fuel rest).map fun (items, rest) => (array items, rest)
    | '{' :: rest =>
      match skipSpace rest with
      | '}' :: rest => some (object [], rest)
      | rest => (readMembers fuel rest).map fun (members, rest) => (objectOfMembers members, rest)
    | rest => readNumber rest

def readItems : Nat → List Char → Option (List Json × List Char)
  | 0, _ => none
  | fuel + 1, s =>
    match readValue fuel s with
    | none => none
    | some (item, rest) =>
      match skipSpace rest with
      | ',' :: rest => (readItems fuel rest).map fun (items, rest) => (item :: items, rest)
      | ']' :: rest => some ([item], rest)
      | _ => none

def readMembers : Nat → List Char → Option (List (Option String × Json) × List Char)
  | 0, _ => none
  | fuel + 1, s =>
    match readName s with
    | none => none
    | some (name, rest) =>
      match readValue fuel rest with
      | none => none
      | some (value, rest) =>
        match skipSpace rest with
        | ',' :: rest =>
          (readMembers fuel rest).map fun (members, rest) => ((name, value) :: members, rest)
        | '}' :: rest => some ([(name, value)], rest)
        | _ => none

end

/-- The value that the whole text stands for. -/
def parse? (text : String) : Option Json :=
  let s := text.toList
  match readValue (2 * s.length + 2) s with
  | some (value, rest) => if skipSpace rest = [] then some value else none
  | none => none

end EntityGraph.Json
