/-!
# String literals of the query language

A literal stands between double quotes. Backslashes, both kinds of quotes and the
five control characters that have a one-letter escape are written as escapes, so
that no quote, backslash or line end of the value stands bare between the quotes.
-/
namespace EntityGraph.Text.Quoted

/-- The letter that stands for `c` after a backslash, if `c` is written as an escape. -/
def escapeLetter? (c : Char) : Option Char :=
  if c = '\\' then some '\\'
  else if c = '\'' then some '\''
  else if c = '"' then some '"'
  else if c = '\x0c' then some 'f'
  else if c = '\x08' then some 'b'
  else if c = '\r' then some 'r'
  else if c = '\n' then some 'n'
  else if c = '\t' then some 't'
  else none

def escape : List Char → List Char
  | [] => []
  | c :: rest =>
    match escapeLetter? c with
    | some letter => '\\' :: letter :: escape rest
    | none => c :: escape rest

def quote (s : List Char) : List Char :=
  '"' :: (escape s ++ ['"'])

end EntityGraph.Text.Quoted
