import EntityGraph.Json.Basic

/-!
# Writing JSON

Strings escape quotes, backslashes and control characters and nothing else. The
compact form has no white space; the indented form puts every item and every member
on a line of its own, two blanks deeper than what holds it, and writes empty
arrays and objects as a pair of brackets.
-/
namespace EntityGraph.Json

def hexDigit (n : Nat) : Char :=
  if n < 10 then Char.ofNat ('0'.toNat + n) else Char.ofNat ('a'.toNat + (n - 10))

def escapeChar (c : Char) : List Char :=
  if c = '"' then ['\\', '"']
  else if c = '\\' then ['\\', '\\']
  else if c = '\x08' then ['\\', 'b']
  else if c = '\x0c' then ['\\', 'f']
  else if c = '\n' then ['\\', 'n']
  else if c = '\r' then ['\\', 'r']
  else if c = '\t' then ['\\', 't']
  else if c.toNat < 0x20 then ['\\', 'u', '0', '0', hexDigit (c.toNat / 16), hexDigit (c.toNat % 16)]
  else [c]

def quoted (s : String) : String :=
  "\"" ++ String.ofList (s.toList.flatMap escapeChar) ++ "\""

mutual

def compact : Json → String
  | null => "null"
  | bool value => if value then "true" else "false"
  | number text => text
  | string value => quoted value
  | unreadable => quoted ""
  | array items => "[" ++ ",".intercalate (compactItems items) ++ "]"
  | object members => "\x7b" ++ ",".intercalate (compactMembers members) ++ "\x7d"

def compactItems : List Json → List String
  | [] => []
  | item :: rest => item.compact :: compactItems rest

def compactMembers : List (String × Json) → List String
  | [] => []
  | (name, value) :: rest => (quoted name ++ ":" ++ value.compact) :: compactMembers rest

end

def indentedBlock (opening closing margin : String) (lines : List String) : String :=
  if lines.isEmpty then opening ++ closing
  else
    opening ++ "\n" ++ ",\n".intercalate (lines.map (margin ++ "  " ++ ·)) ++ "\n" ++ margin ++ closing

mutual

def indented (margin : String) : Json → String
  | array items => indentedBlock "[" "]" margin (indentedItems (margin ++ "  ") items)
  | object members => indentedBlock "\x7b" "\x7d" margin (indentedMembers (margin ++ "  ") members)
  | atom => atom.compact

def indentedItems (margin : String) : List Json → List String
  | [] => []
  | item :: rest => item.indented margin :: indentedItems margin rest

def indentedMembers (margin : String) : List (String × Json) → List String
  | [] => []
  | (name, value) :: rest =>
    (quoted name ++ ": " ++ value.indented margin) :: indentedMembers margin rest

end

end EntityGraph.Json
