/-!
# Collections of entities

Entities gathered from rows, kept by identifier in the order in which they were first seen. An
entity has values, each set once, and collections of related entities.
-/
namespace EntityGraph

mutual

inductive Entity where
  | nil
  | value (name text : String) (rest : Entity)
  | navigation (name : String) (items : Collection) (rest : Entity)

inductive Collection where
  | nil
  | cons (id : String) (entity : Entity) (rest : Collection)

end

instance : Inhabited Entity := ⟨.nil⟩

instance : Inhabited Collection := ⟨.nil⟩

namespace Entity

@[grind =] def value? (name : String) : Entity → Option String
  | nil => none
  | value other text rest => if other = name then some text else rest.value? name
  | navigation _ _ rest => rest.value? name

@[grind =] def setValue (name text : String) : Entity → Entity
  | nil => value name text nil
  | value other kept rest =>
    if other = name then value other kept rest else value other kept (rest.setValue name text)
  | navigation other items rest => navigation other items (rest.setValue name text)

/-- The value set already, if it differs from the one to be set. -/
def conflict? (name text : String) (entity : Entity) : Option String :=
  (entity.value? name).filter (· ≠ text)

@[grind =] def items? (name : String) : Entity → Option Collection
  | nil => none
  | value _ _ rest => rest.items? name
  | navigation other items rest => if other = name then some items else rest.items? name

/-- The related entities; none, if nothing is known of them. -/
def items (name : String) (entity : Entity) : Collection :=
  (entity.items? name).getD .nil

@[grind =] def setItems (name : String) (items : Collection) : Entity → Entity
  | nil => navigation name items nil
  | value other text rest => value other text (rest.setItems name items)
  | navigation other kept rest =>
    if other = name then navigation other items rest
    else navigation other kept (rest.setItems name items)

end Entity

namespace Collection

/-- Change the entity of that identifier, which is added last if it is not there. -/
@[grind =] def update {ε : Type} (id : String) (f : Entity → Except ε Entity) :
    Collection → Except ε Collection
  | nil => do return cons id (← f .nil) nil
  | cons other entity rest =>
    if other = id then do return cons other (← f entity) rest
    else do return cons other entity (← rest.update id f)

@[grind =] def get? (id : String) : Collection → Option Entity
  | nil => none
  | cons other entity rest => if other = id then some entity else rest.get? id

@[grind =] def toList : Collection → List (String × Entity)
  | nil => []
  | cons id entity rest => (id, entity) :: rest.toList

def ids (collection : Collection) : List String :=
  collection.toList.map (·.1)

end Collection
end EntityGraph
