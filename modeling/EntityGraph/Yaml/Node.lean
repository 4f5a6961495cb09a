import EntityGraph.Yaml.Token

/-!
# Nodes of YAML

The tree that the tokens of a document describe. Nodes that are left out are empty plain scalars.
Every reader consumes a token or calls one that does after at most two further calls, so three
times the number of the tokens bounds the nesting of calls.
-/
namespace EntityGraph.Yaml

/-- What may stand before a node: the number of its anchor and its tag. -/
structure Properties where
  anchor : Option Nat := none
  tag : Option String := none
  deriving DecidableEq, Repr

inductive Node where
  | alias (number : Nat)
  | scalar (properties : Properties) (style : Style) (text : String)
  | sequence (properties : Properties) (items : List Node)
  | mapping (properties : Properties) (members : List (Node × Node))
  deriving Repr

def Node.empty : Node :=
  .scalar {} .plain ""

def readProperties : List Token → Option Nat × Option RawTag × List Token
  | .anchor number :: .tag tag :: rest => (some number, some tag, rest)
  | .anchor number :: rest => (some number, none, rest)
  | .tag tag :: .anchor number :: rest => (some number, some tag, rest)
  | .tag tag :: rest => (none, some tag, rest)
  | tokens => (none, none, tokens)

def resolveTag (defined : List (String × String)) : Option RawTag → Option (Option String)
  | none => some none
  | some tag => (tag.resolve? defined).map some

def endsEntry : List Token → Bool
  | [] => false
  | token :: _ => token = .entry || token = .blockEnd

/-- Whether a key or a value of a block mapping is empty before the token. -/
def endsMember : List Token → Bool
  | [] => false
  | token :: _ => token = .key || token = .value || token = .blockEnd

mutual

/-- A node. `isBlock` tells whether it may be a block collection, and `isMember` whether the
entries of a sequence may stand at the column of the mapping around it. -/
def readNode (defined : List (String × String)) (isBlock isMember : Bool) :
    Nat → List Token → Option (Node × List Token)
  | 0, _ => none
  | fuel + 1, tokens =>
    match tokens with
    | .alias number :: rest => some (.alias number, rest)
    | tokens => do
      let (anchor, rawTag, rest) := readProperties tokens
      let properties : Properties := ⟨anchor, ← resolveTag defined rawTag⟩
      match rest with
      | .scalar style text :: rest => return (.scalar properties style text, rest)
      | .flowSequence :: rest =>
        let (items, rest) ← readFlowItems defined true fuel rest
        return (.sequence properties items, rest)
      | .flowMapping :: rest =>
        let (members, rest) ← readFlowMembers defined true fuel rest
        return (.mapping properties members, rest)
      | rest =>
        if isMember && rest.head? = some .entry then
          let (items, rest) ← readMemberItems defined fuel rest
          return (.sequence properties items, rest)
        else if isBlock && rest.head? = some .blockSequence then
          let (items, rest) ← readBlockItems defined fuel (rest.drop 1)
          return (.sequence properties items, rest)
        else if isBlock && rest.head? = some .blockMapping then
          let (members, rest) ← readBlockMembers defined fuel (rest.drop 1)
          return (.mapping properties members, rest)
        else if properties ≠ {} then return (.scalar properties .plain "", rest)
        else none

def readBlockItems (defined : List (String × String)) :
    Nat → List Token → Option (List Node × List Token)
  | 0, _ => none
  | fuel + 1, tokens =>
    match tokens with
    | .entry :: rest => do
      let (item, rest) ←
        if endsEntry rest then some (.empty, rest) else readNode defined true false fuel rest
      let (items, rest) ← readBlockItems defined fuel rest
      return (item :: items, rest)
    | .blockEnd :: rest => some ([], rest)
    | _ => none

/-- The entries of a sequence that stand at the column of the mapping around it. -/
def readMemberItems (defined : List (String × String)) :
    Nat → List Token → Option (List Node × List Token)
  | 0, _ => none
  | fuel + 1, tokens =>
    match tokens with
    | .entry :: rest => do
      let (item, rest) ←
        if endsEntry rest || endsMember rest then some (.empty, rest)
        else readNode defined true false fuel rest
      let (items, rest) ← readMemberItems defined fuel rest
      return (item :: items, rest)
    | rest => some ([], rest)

/-- A value of a block mapping, which may be left out together with its colon. -/
def readBlockValue (defined : List (String × String)) :
    Nat → List Token → Option (Node × List Token)
  | 0, _ => none
  | fuel + 1, tokens =>
    match tokens with
    | .value :: rest =>
      if endsMember rest then some (.empty, rest) else readNode defined true true fuel rest
    | rest => some (.empty, rest)

def readBlockMembers (defined : List (String × String)) :
    Nat → List Token → Option (List (Node × Node) × List Token)
  | 0, _ => none
  | fuel + 1, tokens =>
    match tokens with
    | .key :: rest => do
      let (key, rest) ←
        if endsMember rest then some (.empty, rest) else readNode defined true true fuel rest
      let (value, rest) ← readBlockValue defined fuel rest
      let (members, rest) ← readBlockMembers defined fuel rest
      return ((key, value) :: members, rest)
    | .blockEnd :: rest => some ([], rest)
    | _ => none

/-- The items of a flow sequence up to its bracket. An item after a key mark is a mapping with one
member; if the mark is followed by a comma, a colon or the bracket, that token counts as its key. -/
def readFlowItems (defined : List (String × String)) (isFirst : Bool) :
    Nat → List Token → Option (List Node × List Token)
  | 0, _ => none
  | fuel + 1, tokens =>
    match tokens with
    | .flowSequenceEnd :: rest => some ([], rest)
    | tokens => do
      let tokens ←
        match isFirst, tokens with
        | true, tokens => some tokens
        | false, .comma :: rest => some rest
        | false, _ => none
      match tokens with
      | .flowSequenceEnd :: rest => return ([], rest)
      | .key :: rest =>
        let (key, rest) ←
          match rest with
          | [] => none
          | token :: after =>
            if token = .value || token = .comma || token = .flowSequenceEnd then
              some (.empty, after)
            else readNode defined false false fuel rest
        let (value, rest) ← readFlowValue defined .flowSequenceEnd fuel rest
        let (items, rest) ← readFlowItems defined false fuel rest
        return (.mapping {} [(key, value)] :: items, rest)
      | tokens =>
        let (item, rest) ← readNode defined false false fuel tokens
        let (items, rest) ← readFlowItems defined false fuel rest
        return (item :: items, rest)

def readFlowValue (defined : List (String × String)) (closing : Token) :
    Nat → List Token → Option (Node × List Token)
  | 0, _ => none
  | fuel + 1, tokens =>
    match tokens with
    | .value :: rest =>
      if rest.head? = some .comma || rest.head? = some closing then some (.empty, rest)
      else readNode defined false false fuel rest
    | rest => some (.empty, rest)

def readFlowMembers (defined : List (String × String)) (isFirst : Bool) :
    Nat → List Token → Option (List (Node × Node) × List Token)
  | 0, _ => none
  | fuel + 1, tokens =>
    match tokens with
    | .flowMappingEnd :: rest => some ([], rest)
    | tokens => do
      let tokens ←
        match isFirst, tokens with
        | true, tokens => some tokens
        | false, .comma :: rest => some rest
        | false, _ => none
      match tokens with
      | .flowMappingEnd :: rest => return ([], rest)
      | .key :: rest =>
        let isEmpty := rest.head?.any fun token =>
          token = .value || token = .comma || token = .flowMappingEnd
        let (key, rest) ←
          if isEmpty then some (.empty, rest) else readNode defined false false fuel rest
        let (value, rest) ← readFlowValue defined .flowMappingEnd fuel rest
        let (members, rest) ← readFlowMembers defined false fuel rest
        return ((key, value) :: members, rest)
      | tokens =>
        let (key, rest) ← readNode defined false false fuel tokens
        let (members, rest) ← readFlowMembers defined false fuel rest
        return ((key, .empty) :: members, rest)

end

def readDirectives : List Token → List Directive × List Token
  | .directive directive :: rest =>
    let (directives, rest) := readDirectives rest
    (directive :: directives, rest)
  | rest => ([], rest)

/-- The node after the marker that starts a document, which may be left out. -/
def readContent (defined : List (String × String)) (tokens : List Token) :
    Option (Node × List Token) :=
  match tokens with
  | [] => some (.empty, [])
  | .directive _ :: _ => some (.empty, tokens)
  | .documentStart :: _ => some (.empty, tokens)
  | .documentEnd :: _ => some (.empty, tokens)
  | tokens => readNode defined true false (3 * tokens.length + 3) tokens

/-- The node of the only document. A document without a start marker has no directives and is not
empty; nothing but end markers may follow a document. -/
def readDocument (tokens : List Token) : Option Node := do
  let (directives, rest) := readDirectives tokens
  let (node, rest) ←
    match rest with
    | .documentStart :: rest =>
      if areConsistent directives then readContent (handles directives) rest else none
    | rest =>
      if directives.isEmpty && !rest.isEmpty then
        readNode (handles []) true false (3 * rest.length + 3) rest
      else none
  if rest.all (· = .documentEnd) then some node else none

end EntityGraph.Yaml
