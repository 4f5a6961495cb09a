import EntityGraph.Text.Blank

/-!
# Expand trees

Which navigation properties of an entity are read as well, and what is read of the entities
they lead to. The names of one level are kept in the order of their code points, so that a tree
depends only on the set of its paths.
-/
namespace EntityGraph

inductive ExpandTree where
  | nil
  | cons (name : String) (below rest : ExpandTree)
  deriving DecidableEq, Repr, Inhabited

namespace ExpandTree

/-- Change what is expanded below `name`, which is added in its place if it is not there. -/
def update (name : String) (f : ExpandTree → ExpandTree) : ExpandTree → ExpandTree
  | nil => cons name (f nil) nil
  | cons other below rest =>
    if name = other then cons other (f below) rest
    else if name < other then cons name (f nil) (cons other below rest)
    else cons other below (rest.update name f)

def addPath : List String → ExpandTree → ExpandTree
  | [], tree => tree
  | name :: path, tree => tree.update name (addPath path)

/-- The names of a written path: white space around them and empty names do not count. -/
def segments (path : String) : List String :=
  (((Text.splitAt '/' path.toList).map Text.trimBlank).filter (· ≠ [])).map String.ofList

def ofPaths (paths : List String) : ExpandTree :=
  paths.foldl (fun tree path => tree.addPath (segments path)) nil

def names : ExpandTree → List String
  | nil => []
  | cons name _ rest => name :: rest.names

def child? (name : String) : ExpandTree → Option ExpandTree
  | nil => none
  | cons other below rest => if other = name then some below else rest.child? name

def isEmpty : ExpandTree → Bool
  | nil => true
  | cons _ _ _ => false

end ExpandTree
end EntityGraph
