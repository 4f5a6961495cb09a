import EntityGraph.Sparql.Clause
import EntityGraph.Sparql.Query
import Mathlib.Tactic.Common

/-!
# The tokens of queries

A query is read from left to right. A double quote begins a string, which ends at the next quote that
is not escaped; inside, a backslash and a letter stand for one character, and there are no line ends.
What is between strings is split at white space, at brackets and at exclamation marks.

The tokens of a condition are known if no quotes are in the names, numerals and groups that it is made
of: its strings are the strings of the text, and whatever they say, all other tokens are the same.
-/
namespace EntityGraph

namespace Text.Quoted

def unescape? : Char → Option Char
  | 't' => some '\t'
  | 'b' => some '\x08'
  | 'n' => some '\n'
  | 'r' => some '\r'
  | 'f' => some '\x0c'
  | '"' => some '"'
  | '\'' => some '\''
  | '\\' => some '\\'
  | _ => none

theorem unescape?_escapeLetter? {c letter : Char} (h : escapeLetter? c = some letter) :
    unescape? letter = some c := by
  unfold escapeLetter? at h
  repeat' split at h
  all_goals cases h
  all_goals subst c; rfl

theorem bare_of_escapeLetter? {c : Char} (h : escapeLetter? c = none) :
    c ≠ '"' ∧ c ≠ '\\' ∧ c ≠ '\r' ∧ c ≠ '\n' := by
  refine ⟨?_, ?_, ?_, ?_⟩ <;> rintro rfl <;> simp [escapeLetter?] at h

end Text.Quoted

namespace Sparql

/-- A string with its value, or a character outside of strings. -/
inductive Piece where
  | string (value : List Char)
  | plain (c : Char)
  deriving DecidableEq, Repr

/-- Where in a text a character stands; in a string, with the value of what is before it. -/
inductive Mode where
  | outside
  | inside (value : List Char)
  | escaped (value : List Char)

def scan : Mode → List Char → Option (List Piece)
  | .outside, [] => some []
  | .outside, c :: rest =>
    if c = '"' then scan (.inside []) rest else (scan .outside rest).map (.plain c :: ·)
  | .inside _, [] => none
  | .inside value, c :: rest =>
    if c = '"' then (scan .outside rest).map (.string value :: ·)
    else if c = '\\' then scan (.escaped value) rest
    else if c = '\r' ∨ c = '\n' then none
    else scan (.inside (value ++ [c])) rest
  | .escaped _, [] => none
  | .escaped value, letter :: rest =>
    match Text.Quoted.unescape? letter with
    | some c => scan (.inside (value ++ [c])) rest
    | none => none

inductive Token where
  | string (value : String)
  | word (text : String)
  | mark (c : Char)
  deriving DecidableEq, Repr

def isSpace (c : Char) : Bool := c == ' ' || c == '\t' || c == '\r' || c == '\n'

def isMark (c : Char) : Bool := ['(', ')', '\x7b', '\x7d', '!'].contains c

def endWord (word : List Char) (tokens : List Token) : List Token :=
  if word = [] then tokens else .word (String.ofList word) :: tokens

def tokensFrom (word : List Char) : List Piece → List Token
  | [] => endWord word []
  | .string value :: rest => endWord word (.string (String.ofList value) :: tokensFrom [] rest)
  | .plain c :: rest =>
    if isSpace c then endWord word (tokensFrom [] rest)
    else if isMark c then endWord word (.mark c :: tokensFrom [] rest)
    else tokensFrom (word ++ [c]) rest

/-- The tokens of a text; `none` if a string does not end or has an escape that stands for nothing. -/
def tokens? (text : String) : Option (List Token) :=
  (scan .outside text.toList).map (tokensFrom [])

namespace Token

def string? : Token → Option String
  | string value => some value
  | _ => none

/-- The token with nothing in it if it is a string. -/
def emptied : Token → Token
  | string _ => string ""
  | other => other

end Token

namespace Piece

def string? : Piece → Option String
  | string value => some (String.ofList value)
  | plain _ => none

def emptied : Piece → Piece
  | string _ => string []
  | plain c => plain c

end Piece

theorem map_emptied_tokensFrom (word : List Char) (pieces : List Piece) :
    (tokensFrom word pieces).map Token.emptied = tokensFrom word (pieces.map Piece.emptied) := by
  have hend : ∀ word tokens, (endWord word tokens).map Token.emptied = endWord word
    (tokens.map Token.emptied) := by
    intro word tokens
    unfold endWord
    split <;> rfl
  induction pieces generalizing word with
  | nil => exact hend word []
  | cons piece rest ih =>
      cases piece with
      | string value =>
          simp only [tokensFrom, List.map_cons, Piece.emptied, hend, Token.emptied, ih, String.ofList_nil]
      | plain c =>
          simp only [tokensFrom, List.map_cons, Piece.emptied]
          split
          · rw [hend, ih]
          · split
            · rw [hend, List.map_cons, ih, Token.emptied]
              simp
            · exact ih _

theorem filterMap_string?_tokensFrom (word : List Char) (pieces : List Piece) :
    (tokensFrom word pieces).filterMap Token.string? = pieces.filterMap Piece.string? := by
  have hend : ∀ word tokens, (endWord word tokens).filterMap Token.string? =
      tokens.filterMap Token.string? := by
    intro word tokens
    unfold endWord
    split <;> rfl
  induction pieces generalizing word with
  | nil => exact hend word []
  | cons piece rest ih =>
      cases piece with
      | string value =>
          rw [tokensFrom, hend, List.filterMap_cons, List.filterMap_cons, ih]
          rfl
      | plain c =>
          rw [List.filterMap_cons_none rfl]
          simp only [tokensFrom]
          split
          · rw [hend, ih]
          · split
            · rw [hend, List.filterMap_cons_none rfl, ih]
            · exact ih _

def Spells (text : List Char) (pieces : List Piece) : Prop :=
  ∀ rest, scan .outside (text ++ rest) = (scan .outside rest).map (pieces ++ ·)

theorem Spells.append {left right : List Char} {pieces more : List Piece} (hl : Spells left pieces)
    (hr : Spells right more) : Spells (left ++ right) (pieces ++ more) := by
  intro rest
  rw [List.append_assoc, hl, hr, Option.map_map]
  simp [Function.comp_def]

theorem Spells.scan_eq {text : List Char} {pieces : List Piece} (h : Spells text pieces) :
    scan .outside text = some pieces := by
  simpa [scan] using h []

theorem scan_escape (value s rest : List Char) :
    scan (.inside value) (Text.Quoted.escape s ++ '"' :: rest) =
      (scan .outside rest).map (.string (value ++ s) :: ·) := by
  induction s generalizing value with
  | nil => simp [Text.Quoted.escape, scan]
  | cons c s ih =>
      rw [Text.Quoted.escape]
      cases hletter : Text.Quoted.escapeLetter? c with
      | some letter =>
          have hback := Text.Quoted.unescape?_escapeLetter? hletter
          simp [scan, hback, ih]
      | none =>
          obtain ⟨hquote, hslash, hreturn, hline⟩ := Text.Quoted.bare_of_escapeLetter? hletter
          simp [scan, hquote, hslash, hreturn, hline, ih]

theorem Spells.quote (s : List Char) : Spells (Text.Quoted.quote s) [.string s] := by
  intro rest
  have hinside := scan_escape [] s rest
  simpa [Text.Quoted.quote, scan] using hinside

def Unquoted (text : String) : Prop := '"' ∉ text.toList

instance (text : String) : Decidable (Unquoted text) :=
  inferInstanceAs (Decidable ('"' ∉ text.toList))

theorem Unquoted.append {left right : String} (hl : Unquoted left) (hr : Unquoted right) :
    Unquoted (left ++ right) := by
  simp only [Unquoted, String.toList_append, List.mem_append, not_or]
  exact ⟨hl, hr⟩

def plainPieces (text : String) : List Piece := text.toList.map .plain

theorem Unquoted.spells {text : String} (h : Unquoted text) : Spells text.toList (plainPieces text) := by
  unfold plainPieces
  unfold Unquoted at h
  intro rest
  generalize text.toList = s at h
  induction s with
  | nil => simp
  | cons c more ih =>
      obtain ⟨hc, hmore⟩ : ¬ '"' = c ∧ '"' ∉ more := by simpa using h
      rw [List.cons_append, scan, if_neg (Ne.symm hc), ih hmore, Option.map_map]
      rfl

namespace Clause

/-- There are no quotes in a condition, except those around strings. -/
def Unquoted : Clause → Prop
  | string _ => True
  | number text => Sparql.Unquoted text
  | boolean _ => True
  | var name => Sparql.Unquoted name
  | and left right => left.Unquoted ∧ right.Unquoted
  | or left right => left.Unquoted ∧ right.Unquoted
  | equal left right => left.Unquoted ∧ right.Unquoted
  | not inner => inner.Unquoted
  | bound name => Sparql.Unquoted name
  | existing group condition => Sparql.Unquoted group.text ∧ condition.Unquoted

/-- The strings of a condition, from left to right. -/
def strings : Clause → List String
  | string value => [value]
  | number _ => []
  | boolean _ => []
  | var _ => []
  | and left right => left.strings ++ right.strings
  | or left right => left.strings ++ right.strings
  | equal left right => left.strings ++ right.strings
  | not inner => inner.strings
  | bound _ => []
  | existing _ condition => condition.strings

/-- The condition with nothing in its strings. -/
def emptied : Clause → Clause
  | string _ => string ""
  | number text => number text
  | boolean value => boolean value
  | var name => var name
  | and left right => and left.emptied right.emptied
  | or left right => or left.emptied right.emptied
  | equal left right => equal left.emptied right.emptied
  | not inner => not inner.emptied
  | bound name => bound name
  | existing group condition => existing group condition.emptied

def joined (operator : String) (left right : List Piece) : List Piece :=
  plainPieces "(" ++ left ++ plainPieces operator ++ right ++ plainPieces ")"

@[grind =] def pieces : Clause → List Piece
  | string value => [.string value.toList]
  | number text => plainPieces text
  | boolean value => plainPieces (if value then "true" else "false")
  | var name => plainPieces name
  | and left right => joined " && " left.pieces right.pieces
  | or left right => joined " || " left.pieces right.pieces
  | equal left right => joined " = " left.pieces right.pieces
  | not inner => plainPieces "!" ++ inner.pieces
  | bound name => plainPieces "BOUND(" ++ plainPieces name ++ plainPieces ")"
  | existing group condition =>
    plainPieces "EXISTS \x7b " ++ plainPieces group.text ++ plainPieces " FILTER(" ++ condition.pieces ++
      plainPieces ") \x7d"

theorem spells_joined {operator left right : String} {l r : List Piece} (hop : Sparql.Unquoted operator)
    (hl : Spells left.toList l) (hr : Spells right.toList r) :
    Spells ("(" ++ left ++ operator ++ right ++ ")").toList (joined operator l r) := by
  have hopen : Sparql.Unquoted "(" := by decide
  have hclose : Sparql.Unquoted ")" := by decide
  simp only [String.toList_append]
  exact (((hopen.spells.append hl).append hop.spells).append hr).append hclose.spells

theorem spells {c : Clause} (h : c.Unquoted) : Spells c.text.toList c.pieces := by
  induction c with
  | string value => simpa [text, pieces] using Spells.quote value.toList
  | number text => exact Unquoted.spells h
  | boolean value =>
      have hvalue : Sparql.Unquoted (if value then "true" else "false") := by
        cases value <;> decide
      exact hvalue.spells
  | var name => exact Unquoted.spells h
  | and left right ihl ihr => exact spells_joined (by decide) (ihl h.1) (ihr h.2)
  | or left right ihl ihr => exact spells_joined (by decide) (ihl h.1) (ihr h.2)
  | equal left right ihl ihr => exact spells_joined (by decide) (ihl h.1) (ihr h.2)
  | not inner ih =>
      have hmark : Sparql.Unquoted "!" := by decide
      simp only [text, String.toList_append]
      exact hmark.spells.append (ih h)
  | bound name =>
      have hbound : Sparql.Unquoted ("BOUND(" ++ name ++ ")") :=
        (Sparql.Unquoted.append (by decide) h).append (by decide)
      simpa [pieces, plainPieces, text] using hbound.spells
  | existing group condition ih =>
      have hbefore : Sparql.Unquoted ("EXISTS \x7b " ++ group.text ++ " FILTER(") :=
        (Sparql.Unquoted.append (by decide) h.1).append (by decide)
      have hafter : Sparql.Unquoted ") \x7d" := by decide
      have hall := (hbefore.spells.append (ih h.2)).append hafter.spells
      simpa [pieces, plainPieces, text] using hall

theorem filterMap_string?_plainPieces (text : String) : (plainPieces text).filterMap Piece.string? = [] := by
  simp [plainPieces, Piece.string?]

theorem map_emptied_plainPieces (text : String) :
    (plainPieces text).map Piece.emptied = plainPieces text := by
  simp [plainPieces, Piece.emptied]

theorem filterMap_string?_pieces (c : Clause) : c.pieces.filterMap Piece.string? = c.strings := by
  induction c with
  | string value => simp [pieces, strings, Piece.string?]
  | number text => exact filterMap_string?_plainPieces text
  | boolean value => exact filterMap_string?_plainPieces _
  | var name => exact filterMap_string?_plainPieces name
  | and left right ihl ihr => simp [pieces, joined, strings, filterMap_string?_plainPieces, ihl, ihr]
  | or left right ihl ihr => simp [pieces, joined, strings, filterMap_string?_plainPieces, ihl, ihr]
  | equal left right ihl ihr => simp [pieces, joined, strings, filterMap_string?_plainPieces, ihl, ihr]
  | not inner ih => simp [pieces, strings, filterMap_string?_plainPieces, ih]
  | bound name => simp [pieces, strings, filterMap_string?_plainPieces]
  | existing group condition ih => simp [pieces, strings, filterMap_string?_plainPieces, ih]

theorem pieces_emptied (c : Clause) : c.emptied.pieces = c.pieces.map Piece.emptied := by
  induction c with
  | string value => rfl
  | number text => exact (map_emptied_plainPieces text).symm
  | boolean value => exact (map_emptied_plainPieces _).symm
  | var name => exact (map_emptied_plainPieces name).symm
  | and left right ihl ihr => simp [emptied, pieces, joined, map_emptied_plainPieces, ihl, ihr]
  | or left right ihl ihr => simp [emptied, pieces, joined, map_emptied_plainPieces, ihl, ihr]
  | equal left right ihl ihr => simp [emptied, pieces, joined, map_emptied_plainPieces, ihl, ihr]
  | not inner ih => simp [emptied, pieces, map_emptied_plainPieces, ih]
  | bound name => simp [emptied, pieces, map_emptied_plainPieces]
  | existing group condition ih => simp [emptied, pieces, map_emptied_plainPieces, ih]

end Clause

namespace Query

/-- A query without the declarations before it. -/
def selection (query : Query) : String := "SELECT * WHERE \x7b " ++ query.body ++ " \x7d"

theorem text_eq (query : Query) : query.text = header query.prefixes ++ query.selection := by
  have hassoc : ∀ a b c d : String, a ++ b ++ c ++ d = a ++ (b ++ c ++ d) := fun a b c d => by
    simp only [String.append_assoc]
  exact hassoc _ _ _ _

theorem starts_selection (query : Query) : "SELECT".toList <+: query.selection.toList := by
  have hopen : "SELECT".toList <+: "SELECT * WHERE \x7b ".toList := by decide
  unfold selection
  simp only [String.toList_append, List.append_assoc]
  exact hopen.trans (List.prefix_append _ _)

theorem body_unconditional (prefixes : List (String × String)) (group : Group) :
    body ⟨prefixes, group, none⟩ = if group.isNil then "" else group.text := by
  unfold body
  cases group.isNil with
  | true => rfl
  | false => exact String.intercalate_singleton

theorem body_conditional (prefixes : List (String × String)) (group : Group) (condition : String) :
    body ⟨prefixes, group, some condition⟩ =
      (if group.isNil then "" else group.text ++ " ") ++ ("FILTER(" ++ condition ++ ")") := by
  unfold body
  cases group.isNil with
  | true => simp [String.intercalate_singleton]
  | false => simp [String.intercalate_cons_cons]

/-- The pieces of a query for a group under a condition. -/
def pieces (group : Group) : Option Clause → List Piece
  | none => plainPieces ("SELECT * WHERE \x7b " ++ (if group.isNil then "" else group.text) ++ " \x7d")
  | some c =>
    plainPieces ("SELECT * WHERE \x7b " ++ (if group.isNil then "" else group.text ++ " ") ++ "FILTER(") ++
      c.pieces ++ plainPieces ") \x7d"

variable {prefixes : List (String × String)} {group : Group} {condition : Option Clause}

theorem spells (hgroup : Unquoted group.text) (hcondition : ∀ c, condition = some c → c.Unquoted) :
    Spells (selection ⟨prefixes, group, condition.map Clause.text⟩).toList (pieces group condition) := by
  have hopen : Unquoted "SELECT * WHERE \x7b " := by decide
  have hempty : Unquoted "" := by decide
  cases condition with
  | none =>
      have hbody : Unquoted (if group.isNil then "" else group.text) := by
        split
        · exact hempty
        · exact hgroup
      have hall : Unquoted ("SELECT * WHERE \x7b " ++ (if group.isNil then "" else group.text) ++ " \x7d") :=
        (hopen.append hbody).append (by decide)
      have htext : selection ⟨prefixes, group, none⟩ =
          "SELECT * WHERE \x7b " ++ (if group.isNil then "" else group.text) ++ " \x7d" := by
        unfold selection
        rw [body_unconditional]
      simp only [Option.map_none, htext]
      exact hall.spells
  | some c =>
      have hbody : Unquoted (if group.isNil then "" else group.text ++ " ") := by
        split
        · exact hempty
        · exact hgroup.append (by decide)
      have hbefore : Unquoted ("SELECT * WHERE \x7b " ++
        (if group.isNil then "" else group.text ++ " ") ++ "FILTER(") :=
        (hopen.append hbody).append (by decide)
      have hafter : Unquoted ") \x7d" := by decide
      have htext : selection ⟨prefixes, group, some c.text⟩ =
          ("SELECT * WHERE \x7b " ++ (if group.isNil then "" else group.text ++ " ") ++
            "FILTER(") ++ c.text ++ ") \x7d" := by
        unfold selection
        rw [body_conditional]
        have hassoc : ∀ a b c d e f : String, a ++ (b ++ (c ++ d ++ e)) ++ f = a ++ b ++ c ++ d ++ (e ++ f) :=
          fun a b c d e f => by simp only [String.append_assoc]
        exact hassoc _ _ _ _ _ _
      have hall := (hbefore.spells.append (Clause.spells (hcondition c rfl))).append hafter.spells
      simp only [Option.map_some, htext]
      simpa only [pieces, String.toList_append] using hall

/-- A query is read as tokens: its strings are those of the condition, and what else there is does not
depend on what they say. -/
theorem tokens?_selection (hgroup : Unquoted group.text) (hcondition : ∀ c, condition = some c → c.Unquoted) :
    ∃ tokens, tokens? (selection ⟨prefixes, group, condition.map Clause.text⟩) = some tokens ∧
      tokens.filterMap Token.string? = (condition.map Clause.strings).getD [] ∧
      tokens.map Token.emptied = tokensFrom [] (pieces group (condition.map Clause.emptied)) := by
  have hscan := (@spells prefixes group condition hgroup hcondition).scan_eq
  refine ⟨tokensFrom [] (pieces group condition), by rw [tokens?, hscan, Option.map_some], ?_, ?_⟩
  · rw [filterMap_string?_tokensFrom]
    cases condition with
    | none => exact Clause.filterMap_string?_plainPieces _
    | some c => simp [pieces, Clause.filterMap_string?_plainPieces, Clause.filterMap_string?_pieces]
  · rw [map_emptied_tokensFrom]
    cases condition with
    | none => rw [pieces, Clause.map_emptied_plainPieces, Option.map_none, pieces]
    | some c => simp [pieces, Clause.map_emptied_plainPieces, Clause.pieces_emptied]

end Query
end Sparql
end EntityGraph
