import EntityGraph.Text.Blank

/-!
# Names and namespaces that may stand in a query

A prefixed name is a prefix, a colon and a local part. Both parts consist of ASCII letters,
digits, underscores and hyphens; a prefix starts with a letter, a local part with a letter or
an underscore. A namespace is any text that can stand between angle brackets.
-/
namespace EntityGraph.Name

def isLetter (c : Char) : Bool := c.isAlpha

def isNameChar (c : Char) : Bool := c.isAlphanum || c == '_' || c == '-'

def isPrefixPart : List Char → Bool
  | [] => false
  | c :: rest => isLetter c && rest.all isNameChar

def isLocalPart : List Char → Bool
  | [] => false
  | c :: rest => (isLetter c || c == '_') && rest.all isNameChar

/-- The prefix of a prefixed name; `none` if the text is no such name. -/
def prefixOf? (name : String) : Option String :=
  let s := name.toList
  let before := s.takeWhile (· ≠ ':')
  match s.dropWhile (· ≠ ':') with
  | _ :: after =>
    if isPrefixPart before && isLocalPart after then some (String.ofList before) else none
  | [] => none

def isNamespaceChar (c : Char) : Bool :=
  !(['<', '>', '"', '{', '}', '|', '^', '\x60', '\\'].contains c) && !Text.isBlank c

def isNamespace (iri : String) : Bool :=
  !iri.toList.isEmpty && iri.toList.all isNamespaceChar

end EntityGraph.Name
