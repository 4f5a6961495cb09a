/-!
# Group graph patterns of the query language

A group is a sequence of triples, of alternatives joined by `UNION`, and of optional groups.
It is written as words with a blank between any two of them.
-/
namespace EntityGraph.Sparql

structure Triple where
  subject : String
  predicate : String
  object : String
  deriving DecidableEq, Repr

inductive Group where
  | nil
  | triple (t : Triple) (rest : Group)
  | alternatives (bodies : List Group) (rest : Group)
  | optional (body rest : Group)
  deriving Repr, Inhabited

def Triple.words (t : Triple) : List String :=
  [t.subject, t.predicate, t.object, "."]

namespace Group

def isNil : Group → Bool
  | nil => true
  | _ => false

def append : Group → Group → Group
  | nil, added => added
  | triple t rest, added => triple t (rest.append added)
  | alternatives bodies rest, added => alternatives bodies (rest.append added)
  | optional body rest, added => optional body (rest.append added)

mutual

def words : Group → List String
  | nil => []
  | triple t rest => t.words ++ rest.words
  | alternatives bodies rest => unionWords bodies ++ rest.words
  | optional body rest => ["OPTIONAL", "\x7b"] ++ body.words ++ ["\x7d"] ++ rest.words

def unionWords : List Group → List String
  | [] => []
  | [body] => ["\x7b"] ++ body.words ++ ["\x7d"]
  | body :: more => ["\x7b"] ++ body.words ++ ["\x7d", "UNION"] ++ unionWords more

end

def text (group : Group) : String := " ".intercalate group.words

end Group
end EntityGraph.Sparql
