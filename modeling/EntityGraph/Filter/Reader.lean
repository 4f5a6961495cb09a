import EntityGraph.Filter.Expr
import EntityGraph.Json.Parser
import EntityGraph.Number.Reading

/-!
# Reading filters

The written form of a filter is a JSON object with the kind of the expression in its member
`type` and the parts of the expression in members of their own; other members are ignored. An
array may stand for the object: the kind comes first, then the parts in their order. Inside an
expression a kind may also be given by its position in the list of kinds.
-/
namespace EntityGraph.Filter

/-- The kinds of expressions and the names of their parts. -/
def kinds : List (String × List String) :=
  [("string", ["value"]), ("number", ["value"]), ("boolean", ["value"]), ("null", []),
   ("and", ["lhs", "rhs"]), ("or", ["lhs", "rhs"]), ("eq", ["lhs", "rhs"]),
   ("parentheses", ["inner"]), ("property", ["path"]), ("any", ["path", "variable", "predicate"])]

def kind? (byPosition : Bool) : Json → Option (String × List String)
  | .string name => kinds.find? fun kind => kind.1 == name
  | .number text =>
    if byPosition && text.toList.all Char.isDigit then kinds[Binary64.readDigits 0 text.toList]?
    else none
  | _ => none

def onlyMember? (members : List (String × Json)) (name : String) : Option Json :=
  match members.filter fun member => member.1 == name with
  | [(_, value)] => some value
  | _ => none

def parts? (byPosition : Bool) : Json → Option (String × List Json)
  | .object members => do
    let (kind, names) ← kind? byPosition (← onlyMember? members "type")
    return (kind, ← names.mapM (onlyMember? members))
  | .array (tag :: items) => do
    let (kind, names) ← kind? byPosition tag
    if items.length = names.length then some (kind, items) else none
  | _ => none

def textOf? : Json → Option String
  | .string value => some value
  | _ => none

def textsOf? : Json → Option (List String)
  | .array items => items.mapM textOf?
  | _ => none

def numberOf? : Json → Option Binary64
  | .number text => (Binary64.read? text.toList).filter Binary64.isFinite
  | _ => none

/-- Read an expression that is nested at most `fuel` deep. -/
def read? (byPosition : Bool) : Nat → Json → Option Filter
  | 0, _ => none
  | fuel + 1, json => do
    match ← parts? byPosition json with
    | ("string", [value]) => return string (← textOf? value)
    | ("number", [value]) => return number (← numberOf? value)
    | ("boolean", [.bool value]) => return boolean value
    | ("null", []) => return null
    | ("and", [left, right]) => return and (← read? true fuel left) (← read? true fuel right)
    | ("or", [left, right]) => return or (← read? true fuel left) (← read? true fuel right)
    | ("eq", [left, right]) => return eq (← read? true fuel left) (← read? true fuel right)
    | ("parentheses", [inner]) => return parentheses (← read? true fuel inner)
    | ("property", [path]) => return property (← textsOf? path)
    | ("any", [path, lambda, predicate]) =>
      return any (← textsOf? path) (← textOf? lambda) (← read? true fuel predicate)
    | _ => none

def ofJson? (json : Json) : Option Filter := read? false (json.depth + 1) json

/-- Numbers have to be in the range of doubles, strings and names have to stand for texts, also in
members that are ignored. -/
def isPlainAtom : Json → Bool
  | .number text => ((Binary64.read? text.toList).map Binary64.isFinite).getD false
  | .unreadable => false
  | _ => true

/-- Read a filter from its text, which may be nested at most 127 deep. -/
def parse? (text : String) : Option Filter := do
  let json ← Json.parse? text
  if json.depth < 128 && json.allAtoms isPlainAtom then ofJson? json else none

end EntityGraph.Filter
