import EntityGraph.Document.Basic
import EntityGraph.Yaml.Node

/-!
# Documents written as YAML

Aliases stand for the nodes with their anchors, and the keys of a mapping for names. An alias may
stand inside the node it stands for, so aliases inside aliases are followed to a depth that no
reader of documents exceeds.
-/
namespace EntityGraph.Document

mutual

/-- The document of a node, where `anchored` gives the documents of the anchors. -/
def ofNode (anchored : List (Nat × Document)) : Yaml.Node → Document
  | .alias anchor => (anchored.lookup anchor).getD unreadable
  | .scalar properties style text => scalar style properties.tag text
  | .sequence _ items => list (ofNodes anchored items)
  | .mapping _ members =>
    match ofPairs anchored members with
    | some members => record members
    | none => unreadable

def ofNodes (anchored : List (Nat × Document)) : List Yaml.Node → List Document
  | [] => []
  | node :: rest => ofNode anchored node :: ofNodes anchored rest

/-- Members by their names; `none` if a key is no scalar. -/
def ofPairs (anchored : List (Nat × Document)) :
    List (Yaml.Node × Yaml.Node) → Option (List (String × Document))
  | [] => some []
  | (key, value) :: rest =>
    match (ofNode anchored key).text?, ofPairs anchored rest with
    | some name, some members => some ((name, ofNode anchored value) :: members)
    | _, _ => none

end

mutual

def anchorsOf : Yaml.Node → List (Nat × Yaml.Node)
  | .alias _ => []
  | .scalar properties style text =>
    properties.anchor.toList.map fun anchor => (anchor, .scalar properties style text)
  | .sequence properties items =>
    (properties.anchor.toList.map fun anchor => (anchor, .sequence properties items))
      ++ anchorsOfItems items
  | .mapping properties members =>
    (properties.anchor.toList.map fun anchor => (anchor, .mapping properties members))
      ++ anchorsOfMembers members

def anchorsOfItems : List Yaml.Node → List (Nat × Yaml.Node)
  | [] => []
  | node :: rest => anchorsOf node ++ anchorsOfItems rest

def anchorsOfMembers : List (Yaml.Node × Yaml.Node) → List (Nat × Yaml.Node)
  | [] => []
  | (key, value) :: rest => anchorsOf key ++ anchorsOf value ++ anchorsOfMembers rest

end

def anchoredDocuments (nodes : List (Nat × Yaml.Node)) : Nat → List (Nat × Document)
  | 0 => []
  | depth + 1 =>
    let below := anchoredDocuments nodes depth
    nodes.map fun (anchor, node) => (anchor, ofNode below node)

end Document

/-- The single document of a text; a text without a node is refused. Of two anchors with one
number the later one counts. -/
def Yaml.parse? (text : String) : Option Document := do
  let node ← Yaml.readDocument (← Yaml.tokens? text)
  let nodes := (Document.anchorsOf node).reverse
  return Document.ofNode (Document.anchoredDocuments nodes 8) node

end EntityGraph
