import EntityGraph.Json.Basic

/-!
# Records

What a read answers for an entity: its fields in the order of the schema. A value may be
missing, a single related entity may be absent.
-/
namespace EntityGraph

inductive Record where
  | nil
  | value (name : String) (text : Option String) (rest : Record)
  | absent (name : String) (rest : Record)
  | single (name : String) (child rest : Record)
  | many (name : String) (children : List Record) (rest : Record)
  deriving Repr, Inhabited

namespace Record

def textJson : Option String → Json
  | some text => .string text
  | none => .null

mutual

def members : Record → List (String × Json)
  | nil => []
  | value name text rest => (name, textJson text) :: rest.members
  | absent name rest => (name, .null) :: rest.members
  | single name child rest => (name, .object child.members) :: rest.members
  | many name children rest => (name, .array (objects children)) :: rest.members

def objects : List Record → List Json
  | [] => []
  | record :: rest => .object record.members :: objects rest

end

def toJson (record : Record) : Json := .object record.members

end Record
end EntityGraph
