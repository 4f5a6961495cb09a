import EntityGraph.Proofs.Sparql.Tokens
import Mathlib.Algebra.Ring.Parity

/-!
# String literals read back

A string literal is a quote, characters that stand for themselves and escapes that stand for one
character, and a quote. The first quote that is not part of an escape ends it, so a text has at most one
literal at its start. The literal that is written for a value is read back as this value, and what follows
it is left, whatever it is.
-/
namespace EntityGraph.Text.Quoted

/-- What stands between the quotes, and the value it stands for. -/
inductive Spelled : List Char → List Char → Prop
  | nil : Spelled [] []
  | bare {c : Char} {body value : List Char} (hquote : c ≠ '"') (hslash : c ≠ '\\') (hreturn : c ≠ '\r')
      (hline : c ≠ '\n') (more : Spelled body value) : Spelled (c :: body) (c :: value)
  | escaped {letter c : Char} {body value : List Char} (hletter : unescape? letter = some c)
      (more : Spelled body value) : Spelled ('\\' :: letter :: body) (c :: value)

/-- A literal at the start of a text: its characters, its value, and what follows it. -/
structure Lexeme where
  text : List Char
  value : List Char
  rest : List Char
  deriving DecidableEq, Repr

/-- The literal with `more` before what has been read of it, where `more` stands for `c`. -/
def Lexeme.behind (more : List Char) (c : Char) (lexeme : Lexeme) : Lexeme :=
  { lexeme with text := more ++ lexeme.text, value := c :: lexeme.value }

def lexInside? : List Char → Option Lexeme
  | [] => none
  | ['\\'] => none
  | '\\' :: letter :: rest =>
    (unescape? letter).bind fun c => (lexInside? rest).map (.behind ['\\', letter] c)
  | c :: rest =>
    if c = '"' then some ⟨['"'], [], rest⟩
    else if c = '\r' ∨ c = '\n' then none
    else (lexInside? rest).map (.behind [c] c)

/-- The literal that a text starts with. -/
def lex? : List Char → Option Lexeme
  | '"' :: rest => (lexInside? rest).map fun lexeme => { lexeme with text := '"' :: lexeme.text }
  | _ => none

theorem lexInside?_bare {c : Char} (hslash : c ≠ '\\') (rest : List Char) :
    lexInside? (c :: rest) =
      if c = '"' then some ⟨['"'], [], rest⟩
      else if c = '\r' ∨ c = '\n' then none
      else (lexInside? rest).map (.behind [c] c) := by
  conv_lhs => unfold lexInside?
  split <;> simp_all

theorem Spelled.lexInside? {body value : List Char} (h : Spelled body value) (rest : List Char) :
    lexInside? (body ++ '"' :: rest) = some ⟨body ++ ['"'], value, rest⟩ := by
  induction h with
  | nil => rw [List.nil_append, lexInside?_bare (by decide), if_pos rfl]; rfl
  | bare hquote hslash hreturn hline _ ih =>
      rw [List.cons_append, lexInside?_bare hslash, if_neg hquote, if_neg (by simp [hreturn, hline]), ih]
      rfl
  | escaped hletter _ ih =>
      simp only [List.cons_append, Quoted.lexInside?, hletter, ih, Option.bind_some, Option.map_some]
      rfl

theorem spelled_of_lexInside? {text : List Char} {lexeme : Lexeme} (h : lexInside? text = some lexeme) :
    text = lexeme.text ++ lexeme.rest ∧ ∃ body, lexeme.text = body ++ ['"'] ∧ Spelled body lexeme.value := by
  fun_induction lexInside? text generalizing lexeme with
  | case1 => simp at h
  | case2 => simp at h
  | case3 letter rest ih =>
      obtain ⟨c, hletter, h⟩ := Option.bind_eq_some_iff.mp h
      obtain ⟨inner, hinner, rfl⟩ := Option.map_eq_some_iff.mp h
      obtain ⟨hrest, body, hbody, hspelled⟩ := ih hinner
      exact ⟨by simp [Lexeme.behind, ← hrest], '\\' :: letter :: body, by simp [Lexeme.behind, hbody],
        .escaped hletter hspelled⟩
  | case4 =>
      obtain rfl := Option.some.inj h
      exact ⟨rfl, [], rfl, .nil⟩
  | case5 => simp at h
  | case6 c rest hlone hescape hquote hline ih =>
      obtain ⟨inner, hinner, rfl⟩ := Option.map_eq_some_iff.mp h
      obtain ⟨hrest, body, hbody, hspelled⟩ := ih hinner
      obtain ⟨hreturn, hline⟩ := not_or.mp hline
      have hslash : c ≠ '\\' := by
        rintro rfl
        cases rest with
        | nil => exact hlone rfl rfl
        | cons letter rest => exact hescape letter rest rfl rfl
      exact ⟨by simp [Lexeme.behind, ← hrest], c :: body, by simp [Lexeme.behind, hbody],
        .bare hquote hslash hreturn hline hspelled⟩

theorem lex?_eq_some_iff {text : List Char} {lexeme : Lexeme} :
    lex? text = some lexeme ↔ text = lexeme.text ++ lexeme.rest ∧
      ∃ body, lexeme.text = '"' :: (body ++ ['"']) ∧ Spelled body lexeme.value := by
  constructor
  · intro h
    unfold lex? at h
    split at h
    · next rest =>
        obtain ⟨inner, hinner, rfl⟩ := Option.map_eq_some_iff.mp h
        obtain ⟨hrest, body, hbody, hspelled⟩ := spelled_of_lexInside? hinner
        exact ⟨congrArg _ hrest, body, congrArg _ hbody, hspelled⟩
    · simp at h
  · obtain ⟨all, value, rest⟩ := lexeme
    rintro ⟨rfl, body, rfl, hspelled⟩
    have hinside := hspelled.lexInside? rest
    simp [lex?, hinside]

theorem spelled_escape (s : List Char) : Spelled (escape s) s := by
  induction s with
  | nil => exact .nil
  | cons c s ih =>
      rw [escape]
      cases hletter : escapeLetter? c with
      | some letter => exact .escaped (unescape?_escapeLetter? hletter) ih
      | none =>
          obtain ⟨hquote, hslash, hreturn, hline⟩ := bare_of_escapeLetter? hletter
          exact .bare hquote hslash hreturn hline ih

/-- The number of backslashes at the end of a text. -/
def trailingSlashes (s : List Char) : Nat := (s.reverse.takeWhile (· = '\\')).length

theorem trailingSlashes_cons (c : Char) (s : List Char) :
    trailingSlashes (c :: s) =
      if c = '\\' ∧ trailingSlashes s = s.length then s.length + 1 else trailingSlashes s := by
  unfold trailingSlashes
  rw [List.reverse_cons, List.takeWhile_append, List.length_reverse]
  by_cases hall : (s.reverse.takeWhile (· = '\\')).length = s.length
  · by_cases hc : c = '\\' <;> simp [hall, hc]
  · simp [hall]

theorem Spelled.even_trailingSlashes {body value : List Char} (h : Spelled body value) :
    Even (trailingSlashes body) := by
  induction h with
  | nil => exact .zero
  | bare _ hslash _ _ _ ih => simpa [trailingSlashes_cons, hslash] using ih
  | @escaped letter c body value _ _ ih =>
      rw [trailingSlashes_cons, trailingSlashes_cons]
      by_cases hall : letter = '\\' ∧ trailingSlashes body = body.length
      · simpa [hall, add_assoc] using (hall.2 ▸ ih).add even_two
      · have hle : trailingSlashes body ≤ body.length :=
          body.length_reverse ▸ (List.takeWhile_sublist _).length_le
        rw [if_neg hall, if_neg (by simp; omega)]
        exact ih

/-- The literal that is written for a value is the one at the start of any text that begins with it, and is
read back as that value. No two values are escaped alike, and backslashes at the end stand in pairs, so that
none of them takes the closing quote with it. -/
theorem lex?_quote (s rest : List Char) :
    lex? (quote s ++ rest) = some ⟨quote s, s, rest⟩ ∧ Function.Injective escape ∧
      Even (trailingSlashes (escape s)) := by
  have hread : ∀ s rest, lex? (quote s ++ rest) = some ⟨quote s, s, rest⟩ := fun s rest =>
    lex?_eq_some_iff.mpr ⟨rfl, escape s, rfl, spelled_escape s⟩
  refine ⟨hread s rest, fun left right h => ?_, (spelled_escape s).even_trailingSlashes⟩
  have hquote : quote left = quote right := by rw [quote, quote, h]
  have hlexeme : some (Lexeme.mk (quote left) left rest) = some ⟨quote right, right, rest⟩ := by
    rw [← hread, ← hread, hquote]
  exact congrArg Lexeme.value (Option.some.inj hlexeme)

end EntityGraph.Text.Quoted
