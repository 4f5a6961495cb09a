/-!
# JSON values

Numbers keep the text they were written with. Objects keep their members in written
order, repeated names included: who reads an object decides what a repetition means.
-/
namespace EntityGraph

inductive Json where
  | null
  | bool (value : Bool)
  | number (text : String)
  | string (value : String)
  /-- A string that stands for no text, because an escaped surrogate in it has no partner, or an
  object with such a name. -/
  | unreadable
  | array (items : List Json)
  | object (members : List (String × Json))
  deriving Inhabited

namespace Json

mutual

/-- How many arrays and objects are open at the innermost point. -/
def depth : Json → Nat
  | array items => itemsDepth items + 1
  | object members => membersDepth members + 1
  | _ => 0

def itemsDepth : List Json → Nat
  | [] => 0
  | item :: rest => max item.depth (itemsDepth rest)

def membersDepth : List (String × Json) → Nat
  | [] => 0
  | (_, value) :: rest => max value.depth (membersDepth rest)

end

mutual

/-- Whether every atom of the value, members of every name included, satisfies `p`. -/
def allAtoms (p : Json → Bool) : Json → Bool
  | array items => allItems p items
  | object members => allMembers p members
  | atom => p atom

def allItems (p : Json → Bool) : List Json → Bool
  | [] => true
  | item :: rest => item.allAtoms p && allItems p rest

def allMembers (p : Json → Bool) : List (String × Json) → Bool
  | [] => true
  | (_, value) :: rest => value.allAtoms p && allMembers p rest

end

def member? (name : String) : Json → Option Json
  | object members => members.lookup name
  | _ => none

end Json
end EntityGraph
