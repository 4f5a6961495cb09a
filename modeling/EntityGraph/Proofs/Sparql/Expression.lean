import EntityGraph.Proofs.Sparql.Tokens
import Mathlib.Data.List.TakeWhile

/-!
# Reading conditions

The grammar of conditions: disjunctions of conjunctions of comparisons, whose operands are literals,
variables, `BOUND` and conditions in brackets, each with an exclamation mark before it or not. Conjunctions
and disjunctions group to the left, and a comparison has two sides at most. Reading the text of a condition
gives the condition, if its numerals are numerals, its variables are variables and it has no `EXISTS`.
-/
namespace EntityGraph.Sparql

def isUnsigned (text : List Char) : Bool :=
  match text.dropWhile Char.isDigit with
  | [] => !text.isEmpty
  | c :: fraction => c == '.' && !fraction.isEmpty && fraction.all Char.isDigit

def isNumeral (text : String) : Bool :=
  match text.toList with
  | [] => false
  | c :: rest => if c = '-' then isUnsigned rest else isUnsigned (c :: rest)

/-- A question mark and letters, digits and underscores. -/
def isVariableName (text : String) : Bool :=
  match text.toList with
  | [] => false
  | c :: rest => c == '?' && !rest.isEmpty && rest.all fun c => c.isAlphanum || c == '_'

def isInner (c : Char) : Bool := !isSpace c && !isMark c && c != '"'

def IsToken (text : String) : Prop := text.toList ≠ [] ∧ ∀ c ∈ text.toList, isInner c = true

instance (text : String) : Decidable (IsToken text) :=
  decidable_of_iff (text.toList ≠ [] ∧ text.toList.all isInner = true) (by simp [IsToken])

theorem isInner_of_isAlphanum {c : Char} (h : c.isAlphanum = true) : isInner c = true := by
  by_contra hinner
  have hspecial : c ∈ [' ', '\t', '\r', '\n', '(', ')', '\x7b', '\x7d', '!', '"'] := by
    simp only [isInner, isSpace, isMark, List.contains_eq_mem] at hinner
    simp at hinner ⊢
    tauto
  simp only [List.mem_cons, List.not_mem_nil, or_false] at hspecial
  obtain rfl | rfl | rfl | rfl | rfl | rfl | rfl | rfl | rfl | rfl := hspecial <;> simp at h

theorem isInner_of_isDigit {c : Char} (h : c.isDigit = true) : isInner c = true :=
  isInner_of_isAlphanum (by simp [Char.isAlphanum, h])

theorem IsToken.unquoted {text : String} (h : IsToken text) : Unquoted text := by
  intro hquote
  have := h.2 _ hquote
  simp [isInner] at this

theorem isToken_of_isVariableName {text : String} (h : isVariableName text = true) : IsToken text := by
  unfold isVariableName at h
  unfold IsToken
  cases htext : text.toList with
  | nil => simp [htext] at h
  | cons c rest =>
      rw [htext] at h
      simp only [Bool.and_eq_true, beq_iff_eq, List.all_eq_true] at h
      obtain ⟨⟨rfl, -⟩, hrest⟩ := h
      refine ⟨by simp, List.forall_mem_cons.mpr ⟨by decide, fun c hc => ?_⟩⟩
      obtain hc | hc := Bool.or_eq_true_iff.mp (hrest c hc)
      · exact isInner_of_isAlphanum hc
      · obtain rfl : c = '_' := by simpa using hc
        decide

theorem isInner_of_isUnsigned {text : List Char} (h : isUnsigned text = true) :
    ∀ c ∈ text, isInner c = true := by
  intro c hc
  rw [← List.takeWhile_append_dropWhile (p := Char.isDigit) (l := text)] at hc
  obtain hc | hc := List.mem_append.mp hc
  · exact isInner_of_isDigit (List.all_eq_true.mp List.all_takeWhile c hc)
  · unfold isUnsigned at h
    cases hrest : text.dropWhile Char.isDigit with
    | nil => simp [hrest] at hc
    | cons point fraction =>
        rw [hrest] at h hc
        simp only [Bool.and_eq_true, beq_iff_eq, List.all_eq_true] at h
        obtain rfl | hc := List.mem_cons.mp hc
        · rw [h.1.1]
          decide
        · exact isInner_of_isDigit (h.2 c hc)

theorem isToken_of_isNumeral {text : String} (h : isNumeral text = true) : IsToken text := by
  unfold isNumeral at h
  unfold IsToken
  cases htext : text.toList with
  | nil => simp [htext] at h
  | cons c rest =>
      rw [htext] at h
      refine ⟨by simp, ?_⟩
      simp only at h
      split at h
      · next hsign => exact List.forall_mem_cons.mpr ⟨by rw [hsign]; decide, isInner_of_isUnsigned h⟩
      · exact isInner_of_isUnsigned h

theorem isUnsigned_digits {digits : List Char} (hne : digits ≠ [])
    (hdigits : ∀ c ∈ digits, c.isDigit = true) : isUnsigned digits = true := by
  have hrest : digits.dropWhile Char.isDigit = [] := List.dropWhile_eq_nil_iff.mpr hdigits
  simp [isUnsigned, hrest, hne]

theorem isUnsigned_point {digits fraction : List Char} (hdigits : ∀ c ∈ digits, c.isDigit = true)
    (hne : fraction ≠ []) (hfraction : ∀ c ∈ fraction, c.isDigit = true) :
    isUnsigned (digits ++ '.' :: fraction) = true := by
  have hrest : (digits ++ '.' :: fraction).dropWhile Char.isDigit = '.' :: fraction := by
    rw [List.dropWhile_append_of_pos hdigits]
    rfl
  simpa [isUnsigned, hrest, hne] using hfraction

theorem isNumeral_of_isUnsigned {text : String} (h : isUnsigned text.toList = true) :
    isNumeral text = true ∧ isNumeral ("-" ++ text) = true := by
  refine ⟨?_, by simpa [isNumeral, String.toList_append] using h⟩
  unfold isNumeral
  cases htext : text.toList with
  | nil => simp [htext, isUnsigned] at h
  | cons c rest =>
      rw [htext] at h
      by_cases hc : c = '-'
      · subst hc
        simp [isUnsigned] at h
      · simpa [hc] using h

namespace Clause

def ofWord? (text : String) : Option Clause :=
  if text = "true" then some (.boolean true)
  else if text = "false" then some (.boolean false)
  else if isVariableName text then some (.var text)
  else if isNumeral text then some (.number text)
  else none

theorem ofWord?_var {name : String} (h : isVariableName name = true) : ofWord? name = some (.var name) := by
  have htrue : name ≠ "true" := by rintro rfl; revert h; decide
  have hfalse : name ≠ "false" := by rintro rfl; revert h; decide
  rw [ofWord?, if_neg htrue, if_neg hfalse, if_pos h]

theorem ofWord?_number {text : String} (h : isNumeral text = true) : ofWord? text = some (.number text) := by
  have htrue : text ≠ "true" := by rintro rfl; revert h; decide
  have hfalse : text ≠ "false" := by rintro rfl; revert h; decide
  have hvar : isVariableName text = false := by
    unfold isVariableName
    unfold isNumeral at h
    split
    · rfl
    · next c rest htext =>
        rw [htext] at h
        by_contra hvar
        simp only [Bool.and_eq_true, Bool.not_eq_false, beq_iff_eq] at hvar
        obtain ⟨⟨rfl, -⟩, -⟩ := hvar
        simp [isUnsigned] at h
  rw [ofWord?, if_neg htrue, if_neg hfalse, hvar, if_pos h]
  rfl

/-- Operands with an operation between any two of them, joined from the left; `fuel` bounds their number. -/
def readMore (next : List Token → Option (Clause × List Token)) (operation : String)
    (join : Clause → Clause → Clause) : Nat → Clause → List Token → Option (Clause × List Token)
  | fuel + 1, left, .word word :: rest =>
    if word = operation then
      (next rest).bind fun (right, rest) => readMore next operation join fuel (join left right) rest
    else some (left, .word word :: rest)
  | _, left, tokens => some (left, tokens)

def readComparison (next : List Token → Option (Clause × List Token)) (tokens : List Token) :
    Option (Clause × List Token) :=
  (next tokens).bind fun (left, rest) =>
    match rest with
    | .word word :: more =>
      if word = "=" then (next more).map fun (right, rest) => (.equal left right, rest) else some (left, rest)
    | _ => some (left, rest)

def readConjunction (next : List Token → Option (Clause × List Token)) (tokens : List Token) :
    Option (Clause × List Token) :=
  (readComparison next tokens).bind fun (left, rest) =>
    readMore (readComparison next) "&&" .and rest.length left rest

def readDisjunction (next : List Token → Option (Clause × List Token)) (tokens : List Token) :
    Option (Clause × List Token) :=
  (readConjunction next tokens).bind fun (left, rest) =>
    readMore (readConjunction next) "||" .or rest.length left rest

def readOperand (next : List Token → Option (Clause × List Token)) : List Token → Option (Clause × List Token)
  | .mark c :: rest =>
    if c = '!' then (next rest).map fun (inner, rest) => (.not inner, rest) else next (.mark c :: rest)
  | tokens => next tokens

/-- A literal, a variable, `BOUND` of a variable or a condition in brackets; `depth` bounds the brackets. -/
def readPrimary : Nat → List Token → Option (Clause × List Token)
  | 0, _ => none
  | _ + 1, [] => none
  | _ + 1, .string value :: rest => some (.string value, rest)
  | depth + 1, .mark c :: rest =>
    if c = '(' then
      match readDisjunction (readOperand (readPrimary depth)) rest with
      | some (inner, .mark closing :: rest) => if closing = ')' then some (inner, rest) else none
      | _ => none
    else none
  | _ + 1, .word word :: rest =>
    if word = "BOUND" then
      match rest with
      | .mark opening :: .word name :: .mark closing :: rest =>
        if opening = '(' ∧ isVariableName name ∧ closing = ')' then some (.bound name, rest) else none
      | _ => none
    else (ofWord? word).map fun c => (c, rest)

/-- The condition that a text is. -/
def parse? (text : String) : Option Clause :=
  (tokens? text).bind fun tokens =>
    match readDisjunction (readOperand (readPrimary (tokens.length + 1))) tokens with
    | some (c, []) => some c
    | _ => none

def isNegation : Clause → Bool
  | not _ => true
  | _ => false

/-- The numerals are numerals, the variables are variables, and there is no `EXISTS`. Nothing is negated
twice. -/
def Plain : Clause → Prop
  | string _ => True
  | number text => isNumeral text = true
  | boolean _ => True
  | var name => isVariableName name = true
  | and left right => left.Plain ∧ right.Plain
  | or left right => left.Plain ∧ right.Plain
  | equal left right => left.Plain ∧ right.Plain
  | not inner => inner.isNegation = false ∧ inner.Plain
  | bound name => isVariableName name = true
  | existing _ _ => False

def bracketed (operation : String) (left right : List Token) : List Token :=
  .mark '(' :: (left ++ .word operation :: (right ++ [.mark ')']))

def tokens : Clause → List Token
  | string value => [.string value]
  | number text => [.word text]
  | boolean value => [.word (if value then "true" else "false")]
  | var name => [.word name]
  | and left right => bracketed "&&" left.tokens right.tokens
  | or left right => bracketed "||" left.tokens right.tokens
  | equal left right => bracketed "=" left.tokens right.tokens
  | not inner => .mark '!' :: inner.tokens
  | bound name => [.word "BOUND", .mark '(', .word name, .mark ')']
  | existing _ _ => []

theorem Plain.unquoted {c : Clause} (h : c.Plain) : c.Unquoted := by
  induction c with
  | string value => trivial
  | number text => exact (isToken_of_isNumeral h).unquoted
  | boolean value => trivial
  | var name => exact (isToken_of_isVariableName h).unquoted
  | and left right ihl ihr => exact ⟨ihl h.1, ihr h.2⟩
  | or left right ihl ihr => exact ⟨ihl h.1, ihr h.2⟩
  | equal left right ihl ihr => exact ⟨ihl h.1, ihr h.2⟩
  | not inner ih => exact ih h.2
  | bound name => exact (isToken_of_isVariableName h).unquoted
  | existing group condition => exact h.elim

def EndsWord (pieces : List Piece) : Prop :=
  ∀ word, tokensFrom word pieces = endWord word (tokensFrom [] pieces)

theorem ends_nil : EndsWord [] := fun word => by simp [tokensFrom, endWord]

theorem ends_space (pieces : List Piece) : EndsWord (.plain ' ' :: pieces) := fun _ => rfl

theorem ends_mark {c : Char} (hspace : isSpace c = false) (hmark : isMark c = true) (pieces : List Piece) :
    EndsWord (.plain c :: pieces) := fun word => by simp [tokensFrom, endWord, hspace, hmark]

theorem tokensFrom_word {text : List Char} (h : ∀ c ∈ text, isInner c = true) {pieces : List Piece}
    (hends : EndsWord pieces) (word : List Char) :
    tokensFrom word (text.map .plain ++ pieces) = endWord (word ++ text) (tokensFrom [] pieces) := by
  induction text generalizing word with
  | nil => simpa using hends word
  | cons c rest ih =>
      obtain ⟨hc, hrest⟩ := List.forall_mem_cons.mp h
      simp only [isInner, Bool.and_eq_true, Bool.not_eq_true'] at hc
      simp only [List.map_cons, List.cons_append, tokensFrom, hc.1.1, hc.1.2, Bool.false_eq_true, if_false]
      rw [ih hrest, List.append_assoc, List.singleton_append]

theorem tokensFrom_token {text : String} (h : IsToken text) {pieces : List Piece} (hends : EndsWord pieces) :
    tokensFrom [] (plainPieces text ++ pieces) = .word text :: tokensFrom [] pieces := by
  rw [plainPieces, tokensFrom_word h.2 hends, List.nil_append, endWord, if_neg h.1, String.ofList_toList]

theorem tokensFrom_joined {left right : Clause} {operation : String} (hop : IsToken operation)
    {pieces : List Piece}
    (hl : ∀ {pieces}, EndsWord pieces → tokensFrom [] (left.pieces ++ pieces) = left.tokens ++
      tokensFrom [] pieces)
    (hr : ∀ {pieces}, EndsWord pieces → tokensFrom [] (right.pieces ++ pieces) = right.tokens ++
      tokensFrom [] pieces) :
    tokensFrom [] (joined (" " ++ operation ++ " ") left.pieces right.pieces ++ pieces) =
      bracketed operation left.tokens right.tokens ++ tokensFrom [] pieces := by
  have hpieces : joined (" " ++ operation ++ " ") left.pieces right.pieces ++ pieces =
      .plain '(' :: (left.pieces ++ .plain ' ' :: (plainPieces operation ++ .plain ' ' ::
        (right.pieces ++ .plain ')' :: pieces))) := by
    simp [joined, plainPieces]
  have hopen : ∀ pieces, tokensFrom [] (.plain '(' :: pieces) = .mark '(' ::
    tokensFrom [] pieces := fun _ => rfl
  have hclose : ∀ pieces, tokensFrom [] (.plain ')' :: pieces) = .mark ')' ::
    tokensFrom [] pieces := fun _ => rfl
  have hspace : ∀ pieces, tokensFrom [] (.plain ' ' :: pieces) = tokensFrom [] pieces := fun _ => rfl
  rw [hpieces, hopen, hl (ends_space _), hspace, tokensFrom_token hop (ends_space _), hspace,
    hr (ends_mark rfl rfl _), hclose]
  simp [bracketed]

theorem tokensFrom_pieces {c : Clause} (h : c.Plain) {pieces : List Piece} (hends : EndsWord pieces) :
    tokensFrom [] (c.pieces ++ pieces) = c.tokens ++ tokensFrom [] pieces := by
  induction c generalizing pieces with
  | string value => simp [Clause.pieces, tokens, tokensFrom, endWord]
  | number text => exact tokensFrom_token (isToken_of_isNumeral h) hends
  | boolean value =>
      have htoken : IsToken (if value then "true" else "false") := by
        cases value <;> decide
      exact tokensFrom_token htoken hends
  | var name => exact tokensFrom_token (isToken_of_isVariableName h) hends
  | and left right ihl ihr =>
      have hop : IsToken "&&" := by decide
      exact tokensFrom_joined hop (ihl h.1) (ihr h.2)
  | or left right ihl ihr =>
      have hop : IsToken "||" := by decide
      exact tokensFrom_joined hop (ihl h.1) (ihr h.2)
  | equal left right ihl ihr =>
      have hop : IsToken "=" := by decide
      exact tokensFrom_joined hop (ihl h.1) (ihr h.2)
  | not inner ih =>
      exact congrArg (Token.mark '!' :: ·) (ih h.2 hends)
  | bound name =>
      have hpieces : (bound name).pieces ++ pieces = plainPieces "BOUND" ++ .plain '(' ::
          (plainPieces name ++ .plain ')' :: pieces) := by
        simp [Clause.pieces, plainPieces]
      have hopen : ∀ pieces, tokensFrom [] (.plain '(' :: pieces) = .mark '(' ::
        tokensFrom [] pieces := fun _ => rfl
      have hclose : ∀ pieces, tokensFrom [] (.plain ')' :: pieces) = .mark ')' ::
        tokensFrom [] pieces := fun _ => rfl
      rw [hpieces, tokensFrom_token (by decide) (ends_mark rfl rfl _), hopen,
        tokensFrom_token (isToken_of_isVariableName h) (ends_mark rfl rfl _), hclose]
      rfl
  | existing group condition => exact h.elim

theorem tokens?_text {c : Clause} (h : c.Plain) : tokens? c.text = some c.tokens := by
  have hread := tokensFrom_pieces h ends_nil
  rw [List.append_nil, tokensFrom, endWord, if_pos rfl, List.append_nil] at hread
  rw [tokens?, (spells h.unquoted).scan_eq, Option.map_some, hread]

section Reading

variable {next : List Token → Option (Clause × List Token)} {left right : Clause}
    {tokens more rest : List Token}

theorem readDisjunction_and (hl : next tokens = some (left, .word "&&" :: more))
    (hr : next more = some (right, .mark ')' :: rest)) :
    readDisjunction next tokens = some (.and left right, .mark ')' :: rest) := by
  simp [readDisjunction, readConjunction, readComparison, readMore, hl, hr]

theorem readDisjunction_or (hl : next tokens = some (left, .word "||" :: more))
    (hr : next more = some (right, .mark ')' :: rest)) :
    readDisjunction next tokens = some (.or left right, .mark ')' :: rest) := by
  simp [readDisjunction, readConjunction, readComparison, readMore, hl, hr]

theorem readDisjunction_equal (hl : next tokens = some (left, .word "=" :: more))
    (hr : next more = some (right, .mark ')' :: rest)) :
    readDisjunction next tokens = some (.equal left right, .mark ')' :: rest) := by
  simp [readDisjunction, readConjunction, readComparison, readMore, hl, hr]

theorem readOperand_eq_next (h : tokens.head? ≠ some (.mark '!')) :
    readOperand next tokens = next tokens := by
  cases tokens with
  | nil => rfl
  | cons token rest =>
      cases token with
      | mark c =>
          have hc : c ≠ '!' := by simpa using h
          simp [readOperand, hc]
      | string value => rfl
      | word text => rfl

end Reading

theorem head?_tokens_ne {c : Clause} (h : c.Plain) (hneg : c.isNegation = false) (rest : List Token) :
    (c.tokens ++ rest).head? ≠ some (.mark '!') := by
  cases c with
  | not inner => simp [isNegation] at hneg
  | existing group condition => exact h.elim
  | _ => simp [tokens, bracketed]

theorem readPrimary_bracketed {join : Clause → Clause → Clause} {operation : String} {left right : Clause}
    {depth : Nat} {rest : List Token}
    (hjoin : ∀ {next tokens more rest}, next tokens = some (left, .word operation :: more) →
      next more = some (right, .mark ')' :: rest) →
        readDisjunction next tokens = some (join left right, .mark ')' :: rest))
    (hl : ∀ rest, readOperand (readPrimary depth) (left.tokens ++ rest) = some (left, rest))
    (hr : ∀ rest, readOperand (readPrimary depth) (right.tokens ++ rest) = some (right, rest)) :
    readPrimary (depth + 1) (bracketed operation left.tokens right.tokens ++ rest) =
      some (join left right, rest) := by
  have hinner := hjoin (hl (.word operation :: (right.tokens ++ .mark ')' :: rest))) (hr (.mark ')' :: rest))
  have htokens : bracketed operation left.tokens right.tokens ++ rest =
      .mark '(' :: (left.tokens ++ .word operation :: (right.tokens ++ .mark ')' :: rest)) := by
    simp [bracketed]
  rw [htokens, readPrimary, if_pos rfl, hinner]
  rfl

/-- A condition is read as an operand, and, if it is not negated, as what may be negated. -/
structure IsRead (c : Clause) (depth : Nat) (rest : List Token) : Prop where
  operand : readOperand (readPrimary depth) (c.tokens ++ rest) = some (c, rest)
  primary : c.isNegation = false → readPrimary depth (c.tokens ++ rest) = some (c, rest)

theorem IsRead.of_primary {c : Clause} {depth : Nat} {rest : List Token} (h : c.Plain)
    (hneg : c.isNegation = false)
    (hread : readPrimary depth (c.tokens ++ rest) = some (c, rest)) : c.IsRead depth rest :=
  ⟨(readOperand_eq_next (head?_tokens_ne h hneg rest)).trans hread, fun _ => hread⟩

theorem IsRead.of_bracketed {c left right : Clause} {join : Clause → Clause → Clause} {operation : String}
    {depth : Nat} {rest : List Token} (hc : c = join left right) (h : c.Plain) (hneg : c.isNegation = false)
    (htokens : c.tokens = bracketed operation left.tokens right.tokens) (hdepth : c.tokens.length ≤ depth)
    (hjoin : ∀ {next tokens more rest}, next tokens = some (left, .word operation :: more) →
      next more = some (right, .mark ')' :: rest) →
        readDisjunction next tokens = some (join left right, .mark ')' :: rest))
    (hl : ∀ {depth}, left.tokens.length ≤ depth → ∀ rest, left.IsRead (depth + 1) rest)
    (hr : ∀ {depth}, right.tokens.length ≤ depth → ∀ rest, right.IsRead (depth + 1) rest) :
    c.IsRead (depth + 1) rest := by
  refine .of_primary h hneg ?_
  rw [htokens] at hdepth ⊢
  simp only [bracketed, List.length_cons, List.length_append, List.length_nil] at hdepth
  obtain ⟨depth, rfl⟩ : ∃ inner, depth = inner + 1 := ⟨depth - 1, by omega⟩
  rw [hc]
  exact readPrimary_bracketed hjoin (fun rest => (hl (by omega) rest).operand)
    fun rest => (hr (by omega) rest).operand

theorem isRead {c : Clause} (h : c.Plain) {depth : Nat} (hdepth : c.tokens.length ≤ depth)
    (rest : List Token) : c.IsRead (depth + 1) rest := by
  induction c generalizing depth rest with
  | string value => exact .of_primary h rfl rfl
  | number text =>
      have hbound : text ≠ "BOUND" := by
        rintro rfl
        exact absurd (show isNumeral "BOUND" = true from h) (by decide)
      exact .of_primary h rfl (by simp [tokens, readPrimary, hbound, ofWord?_number h])
  | boolean value => exact .of_primary h rfl (by cases value <;> rfl)
  | var name =>
      have hbound : name ≠ "BOUND" := by
        rintro rfl
        exact absurd (show isVariableName "BOUND" = true from h) (by decide)
      exact .of_primary h rfl (by simp [tokens, readPrimary, hbound, ofWord?_var h])
  | and left right ihl ihr =>
      exact .of_bracketed rfl h rfl rfl hdepth readDisjunction_and (ihl h.1) (ihr h.2)
  | or left right ihl ihr =>
      exact .of_bracketed rfl h rfl rfl hdepth readDisjunction_or (ihl h.1) (ihr h.2)
  | equal left right ihl ihr =>
      exact .of_bracketed rfl h rfl rfl hdepth readDisjunction_equal (ihl h.1) (ihr h.2)
  | not inner ih =>
      simp only [tokens, List.length_cons] at hdepth
      have hinner := (ih h.2 (Nat.le_of_succ_le hdepth) rest).primary h.1
      exact ⟨by simp [tokens, readOperand, hinner], nofun⟩
  | bound name =>
      have hname : isVariableName name = true := h
      exact .of_primary h rfl (by simp [tokens, readPrimary, hname])
  | existing group condition => exact h.elim

theorem parse?_text {c : Clause} (h : c.Plain) : parse? c.text = some c := by
  have hread := (isRead h (Nat.le_refl _) []).operand
  rw [List.append_nil] at hread
  rw [parse?, tokens?_text h, Option.bind_some]
  simp [readDisjunction, readConjunction, readComparison, readMore, hread]

/-- Without brackets, conjunctions bind before disjunctions and comparisons before both. -/
example : parse? "!BOUND(?x1) && ?x2 = -0.5 || true && false" =
    some (.or (.and (.not (.bound "?x1")) (.equal (.var "?x2") (.number "-0.5")))
      (.and (.boolean true) (.boolean false))) := by rfl

end Clause
end EntityGraph.Sparql
