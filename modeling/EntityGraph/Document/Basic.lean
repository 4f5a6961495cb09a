import EntityGraph.Json.Basic
import EntityGraph.Text.Hex
import EntityGraph.Yaml.Scalar

/-!
# Documents

The tree of a settings document, whether it was written as YAML or as JSON. A plain YAML scalar
may stand for a text, a number, a truth value or for nothing, depending on what its reader asks
for; a tag before a scalar may fix some of that. An atom of JSON is of one kind only.
-/
namespace EntityGraph

inductive Document where
  /-- A scalar of YAML, or a string of JSON, which is quoted and has no tag. -/
  | scalar (style : Yaml.Style) (tag : Option String) (text : String)
  | flag (value : Bool)
  | number (text : String)
  | null
  /-- A sequence of YAML. -/
  | list (items : List Document)
  /-- An array of JSON, whose items may stand for the fields of a structure. -/
  | array (items : List Document)
  | record (members : List (String × Document))
  /-- What no reader accepts, but what may stand where nobody looks. -/
  | unreadable
  deriving Inhabited

namespace Document

def quoted (text : String) : Document :=
  scalar .quoted none text

mutual

def ofJson : Json → Document
  | .null => null
  | .bool value => flag value
  | .number text => number text
  | .string value => quoted value
  | .unreadable => unreadable
  | .array items => array (ofItems items)
  | .object members => record (ofMembers members)

def ofItems : List Json → List Document
  | [] => []
  | item :: rest => ofJson item :: ofItems rest

def ofMembers : List (String × Json) → List (String × Document)
  | [] => []
  | (name, value) :: rest => (name, ofJson value) :: ofMembers rest

end

def isNullWord (text : String) : Bool :=
  ["~", "null", "Null", "NULL"].contains text

def text? : Document → Option String
  | scalar _ _ text => some text
  | _ => none

/-- A text that may be left out: `none` inside stands for a null. A scalar with the tag of nulls
has to be one. -/
def optionalText? : Document → Option (Option String)
  | null => some none
  | scalar .plain none text => some (if text.isEmpty || isNullWord text then none else some text)
  | scalar .plain (some "tag:yaml.org,2002:null") text =>
    if isNullWord text then some none else none
  | d => d.text?.map some

/-- The text of a scalar that may stand for a value of the kind which the tag names: of a plain
one, and of a literal one with that tag. -/
def untyped? (tag : String) : Document → Option String
  | scalar .plain _ text => some text
  | scalar .literal (some given) text => if given = tag then some text else none
  | _ => none

def flag? : Document → Option Bool
  | flag value => some value
  | d =>
    match d.untyped? "tag:yaml.org,2002:bool" with
    | some text =>
      if ["true", "True", "TRUE"].contains text then some true
      else if ["false", "False", "FALSE"].contains text then some false
      else none
    | none => none

def list? : Document → Option (List Document)
  | list items => some items
  | array items => some items
  | scalar .plain _ "" => some []
  | _ => none

def record? : Document → Option (List (String × Document))
  | record members => some members
  | scalar .plain _ "" => some []
  | _ => none

/-- One word of a closed list: a text, a tag of the document's own before a null, or an object
whose only member is that word with the value null. -/
def word? : Document → Option String
  | record [(word, null)] => some word
  | scalar style (some tag) text =>
    match tag.toList with
    | '!' :: word =>
      if style = .plain && (text.isEmpty || isNullWord text) then
        some (if word = [] then tag else String.ofList word)
      else none
    | _ => some text
  | d => d.text?

def digits? (base : Nat) (s : List Char) : Option Nat :=
  if s ≠ [] && s.all (Text.isDigitOf base) then some (Text.numeral base s) else none

/-- A numeral with or without a plus sign, in a base that two letters before it may give. A
superfluous leading zero makes it none. -/
def numeral? (text : String) : Option Nat :=
  let unsigned := match text.toList with
    | '+' :: rest => rest
    | rest => rest
  match unsigned with
  | ['0'] => some 0
  | '0' :: 'x' :: rest => digits? 16 rest
  | '0' :: 'o' :: rest => digits? 8 rest
  | '0' :: 'b' :: rest => digits? 2 rest
  | '0' :: _ => none
  | rest => digits? 10 rest

def count? (d : Document) : Option Nat :=
  let value := match d with
    | number text => digits? 10 text.toList
    | d => (d.untyped? "tag:yaml.org,2002:int").bind numeral?
  value.filter (· < Nat.pow 2 64)

/-- The fields of a structure, by name or in the order of their declaration. -/
inductive Fields where
  | named (members : List (String × Document))
  | positional (items : List Document)

/-- The fields of a structure that declares `names`. No declared name is repeated and no
position is left over; members of other names are allowed. -/
def fields? (names : List String) (d : Document) : Option Fields :=
  match d with
  | array items => if items.length ≤ names.length then some (.positional items) else none
  | d =>
    match d.record? with
    | some members =>
      if names.all fun name => (members.filter fun member => member.1 = name).length ≤ 1 then
        some (.named members)
      else none
    | none => none

/-- The field `name`, declared as number `position`. -/
def Fields.get? (position : Nat) (name : String) : Fields → Option Document
  | .named members => members.lookup name
  | .positional items => items[position]?

def Fields.required {α : Type} (fields : Fields) (position : Nat) (name : String)
    (read : Document → Option α) : Option α :=
  (fields.get? position name).bind read

def Fields.defaulted {α : Type} (fields : Fields) (position : Nat) (name : String) (missing : α)
    (read : Document → Option α) : Option α :=
  match fields.get? position name with
  | some d => read d
  | none => some missing

end Document
end EntityGraph
