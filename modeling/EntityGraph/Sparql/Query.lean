import EntityGraph.Sparql.Group

/-!
# Select queries

A query declares its prefixes, one to a line, and selects everything that its group and its
condition leave.
-/
namespace EntityGraph.Sparql

structure Query where
  prefixes : List (String × String)
  group : Group
  condition : Option String := none

namespace Query

def header (prefixes : List (String × String)) : String :=
  String.join (prefixes.map fun (declared, iri) => s!"PREFIX {declared}: <{iri}>\n")

/-- The group, if it has anything in it, and the condition, if there is one. -/
def body (query : Query) : String :=
  " ".intercalate ((if query.group.isNil then [] else [query.group.text])
    ++ query.condition.toList.map fun condition => "FILTER(" ++ condition ++ ")")

def text (query : Query) : String :=
  header query.prefixes ++ "SELECT * WHERE \x7b " ++ query.body ++ " \x7d"

end Query
end EntityGraph.Sparql
