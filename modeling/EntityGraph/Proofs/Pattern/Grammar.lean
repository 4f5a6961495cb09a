import EntityGraph.Sparql.Group
import EntityGraph.Text.Blank
import Mathlib.Tactic.Common

/-!
# Reading groups

The grammar of groups: triples `s p o .`, groups in braces with `UNION` between them, and `OPTIONAL`
before a group in braces. A text is read by its words, which white space separates. If the names of a
group are names, and no alternatives are missing, then reading the text of the group gives the group.
-/
namespace EntityGraph

namespace Text

/-- The words of a text: what white space separates. -/
def words : List Char → List (List Char)
  | [] => []
  | [c] => if isBlank c then [] else [[c]]
  | c :: next :: rest =>
    if isBlank c then words (next :: rest)
    else if isBlank next then [c] :: words (next :: rest)
    else
      match words (next :: rest) with
      | [] => [[c]]
      | word :: more => (c :: word) :: more

def IsWord (word : List Char) : Prop :=
  word ≠ [] ∧ ∀ c ∈ word, isBlank c = false

instance (word : List Char) : Decidable (IsWord word) :=
  decidable_of_iff (word ≠ [] ∧ word.all (fun c => !isBlank c) = true) (by simp [IsWord])

theorem words_of_isWord {word : List Char} (h : IsWord word) : words word = [word] := by
  obtain ⟨hne, hplain⟩ := h
  induction word with
  | nil => exact absurd rfl hne
  | cons c rest ih =>
      obtain ⟨hc, hrest⟩ := List.forall_mem_cons.mp hplain
      cases rest with
      | nil => simp [words, hc]
      | cons next more =>
          have hnext := hrest next List.mem_cons_self
          simp [words, hc, hnext, ih (by simp) hrest]

theorem words_append {word : List Char} (h : IsWord word) (rest : List Char) :
    words (word ++ ' ' :: rest) = word :: words rest := by
  obtain ⟨hne, hplain⟩ := h
  have hblank : isBlank ' ' = true := by decide
  have hskip : words (' ' :: rest) = words rest := by
    cases rest with
    | nil => simp [words, hblank]
    | cons c more => simp [words, hblank]
  induction word with
  | nil => exact absurd rfl hne
  | cons c more ih =>
      obtain ⟨hc, hmore⟩ := List.forall_mem_cons.mp hplain
      cases more with
      | nil =>
          rw [List.singleton_append, words]
          simp only [hc, Bool.false_eq_true, if_false, hblank, if_true, hskip]
      | cons next more =>
          have hnext := hmore next List.mem_cons_self
          have hih := ih (by simp) hmore
          rw [List.cons_append] at hih
          rw [List.cons_append, List.cons_append, words]
          simp only [hc, hnext, Bool.false_eq_true, if_false, hih]

theorem words_intercalate (parts : List (List Char)) (h : ∀ word ∈ parts, IsWord word) :
    words ([' '].intercalate parts) = parts := by
  induction parts with
  | nil => rfl
  | cons word rest ih =>
      obtain ⟨hword, hrest⟩ := List.forall_mem_cons.mp h
      cases rest with
      | nil => simpa [List.intercalate] using words_of_isWord hword
      | cons next more =>
          rw [List.intercalate_cons_cons, List.append_assoc, List.singleton_append,
            words_append hword, ih hrest]

end Text

namespace Sparql

/-- The words of a text. -/
def words (text : String) : List String :=
  (Text.words text.toList).map String.ofList

/-- The words of groups that are no names. -/
def marks : List String := [".", "OPTIONAL", "UNION", "\x7b", "\x7d"]

/-- A word without braces that is none of the marks: a variable or a prefixed name. -/
structure IsName (name : String) : Prop where
  isWord : Text.IsWord name.toList
  noBrace : '\x7b' ∉ name.toList ∧ '\x7d' ∉ name.toList
  isOther : name ∉ [".", "OPTIONAL", "UNION"]

instance (name : String) : Decidable (IsName name) :=
  decidable_of_iff (Text.IsWord name.toList ∧ ('\x7b' ∉ name.toList ∧ '\x7d' ∉ name.toList) ∧
      name ∉ [".", "OPTIONAL", "UNION"])
    ⟨fun ⟨hword, hbrace, hother⟩ => ⟨hword, hbrace, hother⟩, fun h => ⟨h.isWord, h.noBrace, h.isOther⟩⟩

theorem IsName.not_mark {name : String} (h : IsName name) : name ∉ marks := by
  intro hmem
  simp only [marks, List.mem_cons, List.not_mem_nil, or_false] at hmem
  obtain rfl | rfl | rfl | rfl | rfl := hmem
  · exact h.isOther (by simp)
  · exact h.isOther (by simp)
  · exact h.isOther (by simp)
  · exact h.noBrace.1 (by decide)
  · exact h.noBrace.2 (by decide)

theorem isWord_of_mark {word : String} (h : word ∈ marks) : Text.IsWord word.toList := by
  simp only [marks, List.mem_cons, List.not_mem_nil, or_false] at h
  obtain rfl | rfl | rfl | rfl | rfl := h <;> decide

def Triple.Named (t : Triple) : Prop :=
  IsName t.subject ∧ IsName t.predicate ∧ IsName t.object

namespace Group

def braced? (inner : List String → Option (Group × List String)) : List String → Option (Group × List String)
  | [] => none
  | opening :: rest =>
    if opening = "\x7b" then
      match inner rest with
      | some (body, closing :: rest) => if closing = "\x7d" then some (body, rest) else none
      | _ => none
    else none

mutual

/-- A group up to the brace that closes it, and what is left of the words; `fuel` bounds their number. -/
def read? : Nat → List String → Option (Group × List String)
  | 0, _ => none
  | _ + 1, [] => some (nil, [])
  | fuel + 1, word :: rest =>
    if word = "\x7d" then some (nil, word :: rest)
    else if word = "\x7b" then
      match readUnion? fuel (word :: rest) with
      | some (bodies, rest) => (read? fuel rest).map fun (more, rest) => (alternatives bodies more, rest)
      | none => none
    else if word = "OPTIONAL" then
      match braced? (read? fuel) rest with
      | some (body, rest) => (read? fuel rest).map fun (more, rest) => (optional body more, rest)
      | none => none
    else
      match rest with
      | predicate :: object :: stop :: rest =>
        if word ∈ marks ∨ predicate ∈ marks ∨ object ∈ marks ∨ stop ≠ "." then none
        else (read? fuel rest).map fun (more, rest) => (triple ⟨word, predicate, object⟩ more, rest)
      | _ => none

def readUnion? : Nat → List String → Option (List Group × List String)
  | 0, _ => none
  | fuel + 1, words =>
    match braced? (read? fuel) words with
    | none => none
    | some (body, []) => some ([body], [])
    | some (body, word :: rest) =>
      if word = "UNION" then (readUnion? fuel rest).map fun (more, rest) => (body :: more, rest)
      else some ([body], word :: rest)

end

/-- The group that a text is. -/
def parse? (text : String) : Option Group :=
  match read? ((Sparql.words text).length + 1) (Sparql.words text) with
  | some (group, []) => some group
  | _ => none

mutual

def triples : Group → List Triple
  | nil => []
  | triple t rest => t :: rest.triples
  | alternatives bodies rest => unionTriples bodies ++ rest.triples
  | optional body rest => body.triples ++ rest.triples

def unionTriples : List Group → List Triple
  | [] => []
  | body :: more => body.triples ++ unionTriples more

end

/-- The names of the triples are names. -/
def Named (triples : List Triple) : Prop :=
  ∀ t ∈ triples, t.Named

mutual

/-- No group in braces is empty, and no alternatives are missing. -/
def Filled : Group → Prop
  | nil => True
  | triple _ rest => rest.Filled
  | alternatives bodies rest => bodies ≠ [] ∧ AllFilled bodies ∧ rest.Filled
  | optional body rest => body.isNil = false ∧ body.Filled ∧ rest.Filled

def AllFilled : List Group → Prop
  | [] => True
  | body :: more => body.isNil = false ∧ body.Filled ∧ AllFilled more

end

theorem ne_of_mark {word : String} (h : word ∉ marks) (mark : String) (hmark : mark ∈ marks) : word ≠ mark :=
  fun heq => h (heq ▸ hmark)

mutual

theorem forall_words {P : String → Prop} (hmarks : ∀ mark ∈ marks, P mark) :
    ∀ g : Group, (∀ t ∈ g.triples, P t.subject ∧ P t.predicate ∧ P t.object) → ∀ word ∈ g.words, P word
  | nil, _ => by simp [words]
  | triple t rest, h => by
      obtain ⟨⟨hs, hp, ho⟩, hrest⟩ := List.forall_mem_cons.mp h
      simp only [words, Triple.words, List.mem_append, List.mem_cons, List.not_mem_nil, or_false]
      rintro word ((rfl | rfl | rfl | rfl) | hword)
      · exact hs
      · exact hp
      · exact ho
      · exact hmarks _ (by decide)
      · exact forall_words hmarks rest hrest word hword
  | alternatives bodies rest, h => by
      obtain ⟨hbodies, hrest⟩ := List.forall_mem_append.mp h
      simp only [words, List.mem_append]
      rintro word (hword | hword)
      · exact forall_unionWords hmarks bodies hbodies word hword
      · exact forall_words hmarks rest hrest word hword
  | optional body rest, h => by
      obtain ⟨hbody, hrest⟩ := List.forall_mem_append.mp h
      simp only [words, List.mem_append, List.mem_cons, List.not_mem_nil, or_false]
      rintro word ((((rfl | rfl) | hword) | rfl) | hword)
      · exact hmarks _ (by decide)
      · exact hmarks _ (by decide)
      · exact forall_words hmarks body hbody word hword
      · exact hmarks _ (by decide)
      · exact forall_words hmarks rest hrest word hword

theorem forall_unionWords {P : String → Prop} (hmarks : ∀ mark ∈ marks, P mark) :
    ∀ bodies : List Group, (∀ t ∈ unionTriples bodies, P t.subject ∧ P t.predicate ∧ P t.object) →
      ∀ word ∈ unionWords bodies, P word
  | [], _ => by simp [unionWords]
  | [body], h => by
      obtain ⟨hbody, -⟩ := List.forall_mem_append.mp h
      simp only [unionWords, List.mem_append, List.mem_cons, List.not_mem_nil, or_false]
      rintro word ((rfl | hword) | rfl)
      · exact hmarks _ (by decide)
      · exact forall_words hmarks body hbody word hword
      · exact hmarks _ (by decide)
  | body :: next :: more, h => by
      obtain ⟨hbody, hmore⟩ := List.forall_mem_append.mp h
      simp only [unionWords, List.mem_append, List.mem_cons, List.not_mem_nil, or_false]
      rintro word (((rfl | hword) | (rfl | rfl)) | hword)
      · exact hmarks _ (by decide)
      · exact forall_words hmarks body hbody word hword
      · exact hmarks _ (by decide)
      · exact hmarks _ (by decide)
      · exact forall_unionWords hmarks (next :: more) hmore word (by simpa [unionWords] using hword)

end

theorem braced?_eq {inner : List String → Option (Group × List String)} {body : Group} {rest : List String}
    (h : inner (body.words ++ "\x7d" :: rest) = some (body, "\x7d" :: rest)) :
    braced? inner ("\x7b" :: (body.words ++ "\x7d" :: rest)) = some (body, rest) := by
  simp only [braced?, if_true, h]

theorem unionWords_cons (body : Group) (more : List Group) : ∃ rest,
    unionWords (body :: more) = "\x7b" :: rest := by
  cases more with
  | nil => exact ⟨_, rfl⟩
  | cons next more => exact ⟨_, rfl⟩

theorem head?_words_ne {g : Group} (hn : Named g.triples) (hf : g.Filled) {rest : List String}
    (hrest : rest.head? ≠ some "UNION") : (g.words ++ rest).head? ≠ some "UNION" := by
  cases g with
  | nil => exact hrest
  | triple t more =>
      have hne : t.subject ≠ "UNION" := ne_of_mark (hn t List.mem_cons_self).1.not_mark _ (by decide)
      simpa [words, Triple.words] using hne
  | alternatives bodies more =>
      obtain ⟨body, others, rfl⟩ := List.exists_cons_of_ne_nil hf.1
      obtain ⟨tail, htail⟩ := unionWords_cons body others
      simp [words, htail]
  | optional body more => simp [words]

mutual

theorem read?_words : ∀ (g : Group) (fuel : Nat) (rest : List String), Named g.triples → g.Filled →
    g.words.length < fuel → (rest = [] ∨ ∃ more, rest = "\x7d" :: more) →
      read? fuel (g.words ++ rest) = some (g, rest)
  | nil, fuel + 1, rest, _, _, _, hrest => by
      obtain rfl | ⟨more, rfl⟩ := hrest
      · rfl
      · simp [words, read?]
  | triple t more, fuel + 1, rest, hn, hf, hfuel, hrest => by
      obtain ⟨⟨hs, hp, ho⟩, hmore⟩ := List.forall_mem_cons.mp hn
      simp only [words, Triple.words, List.length_append, List.length_cons, List.length_nil] at hfuel
      have hread := read?_words more fuel rest hmore hf (by omega) hrest
      have hclose := ne_of_mark hs.not_mark "\x7d" (by decide)
      have hopen := ne_of_mark hs.not_mark "\x7b" (by decide)
      have hoptional := ne_of_mark hs.not_mark "OPTIONAL" (by decide)
      simp only [words, Triple.words, List.cons_append, List.nil_append, read?, hclose, hopen,
        hoptional, if_false,
        hs.not_mark, hp.not_mark, ho.not_mark, ne_eq, not_true_eq_false, or_self, hread, Option.map_some]
  | alternatives bodies more, fuel + 1, rest, hn, hf, hfuel, hrest => by
      obtain ⟨hnbodies, hnmore⟩ := List.forall_mem_append.mp hn
      obtain ⟨hbodies, hall, hmore⟩ := hf
      obtain ⟨body, others, rfl⟩ := List.exists_cons_of_ne_nil hbodies
      obtain ⟨tail, htail⟩ := unionWords_cons body others
      simp only [words, List.length_append] at hfuel
      have hlength : 0 < (unionWords (body :: others)).length := by simp [htail]
      have hread := read?_words more fuel rest hnmore hmore (by omega) hrest
      have hhead : (more.words ++ rest).head? ≠ some "UNION" := by
        refine head?_words_ne hnmore hmore ?_
        obtain rfl | ⟨after, rfl⟩ := hrest <;> simp
      have hunion := readUnion?_words (body :: others) fuel (more.words ++ rest) hbodies hnbodies hall
        (by omega) hhead
      rw [htail, List.cons_append] at hunion
      simp only [words, htail, List.cons_append, List.append_assoc, read?, hunion, hread, Option.map_some]
      simp
  | optional body more, fuel + 1, rest, hn, hf, hfuel, hrest => by
      obtain ⟨hnbody, hnmore⟩ := List.forall_mem_append.mp hn
      obtain ⟨-, hbody, hmore⟩ := hf
      simp only [words, List.length_append, List.length_cons, List.length_nil] at hfuel
      have hread := read?_words more fuel rest hnmore hmore (by omega) hrest
      have hinner :=
        braced?_eq (read?_words body fuel ("\x7d" :: (more.words ++ rest)) hnbody hbody (by omega)
        (Or.inr ⟨_, rfl⟩))
      simp only [words, List.cons_append, List.nil_append, List.append_assoc, read?]
      simp [hinner, hread]

theorem readUnion?_words : ∀ (bodies : List Group) (fuel : Nat) (rest : List String), bodies ≠ [] →
    Named (unionTriples bodies) → AllFilled bodies → (unionWords bodies).length ≤ fuel →
      rest.head? ≠ some "UNION" → readUnion? fuel (unionWords bodies ++ rest) = some (bodies, rest)
  | [body], 0, rest, _, _, _, hfuel, _ => by simp [unionWords] at hfuel
  | [body], fuel + 1, rest, _, hn, hf, hfuel, hrest => by
      simp only [unionWords, List.length_append, List.length_cons, List.length_nil] at hfuel
      obtain ⟨hnbody, -⟩ := List.forall_mem_append.mp hn
      have hinner :=
        braced?_eq (read?_words body fuel ("\x7d" :: rest) hnbody hf.2.1 (by omega) (Or.inr ⟨_, rfl⟩))
      simp only [unionWords, List.cons_append, List.nil_append, List.append_assoc, readUnion?, hinner]
      cases rest with
      | nil => rfl
      | cons word more =>
          have hword : word ≠ "UNION" := by simpa using hrest
          simp [hword]
  | body :: next :: more, 0, rest, _, _, _, hfuel, _ => by simp [unionWords] at hfuel
  | body :: next :: more, fuel + 1, rest, _, hn, hf, hfuel, hrest => by
      simp only [unionWords, List.length_append, List.length_cons, List.length_nil] at hfuel
      obtain ⟨hnbody, hnmore⟩ := List.forall_mem_append.mp hn
      have hmore := readUnion?_words (next :: more) fuel rest (by simp) hnmore hf.2.2 (by omega) hrest
      have hinner := braced?_eq (read?_words body fuel
        ("\x7d" :: "UNION" :: (unionWords (next :: more) ++ rest)) hnbody hf.2.1 (by omega) (Or.inr ⟨_, rfl⟩))
      simp only [unionWords, List.cons_append, List.nil_append, List.append_assoc, readUnion?, hinner]
      simp [hmore]

end

theorem parse?_text {g : Group} (hn : Named g.triples) (hf : g.Filled) : parse? g.text = some g := by
  have hwords : Sparql.words g.text = g.words := by
    have hparts := Text.words_intercalate (g.words.map String.toList) fun word hword => by
      obtain ⟨name, hname, rfl⟩ := List.mem_map.mp hword
      refine forall_words (fun mark => isWord_of_mark) g (fun t ht => ?_) name hname
      obtain ⟨hs, hp, ho⟩ := hn t ht
      exact ⟨hs.isWord, hp.isWord, ho.isWord⟩
    have hblank : (" ").toList = [' '] := by decide
    rw [Sparql.words, text, String.toList_intercalate, hblank, hparts, List.map_map]
    simp
  have hread := read?_words g (g.words.length + 1) [] hn hf (Nat.lt_succ_self _) (Or.inl rfl)
  rw [List.append_nil] at hread
  rw [parse?, hwords, hread]

theorem text_eq_empty {g : Group} (hn : Named g.triples) (hf : g.Filled) : g.text = "" ↔ g.isNil = true := by
  constructor
  · intro htext
    have hparse := parse?_text hn hf
    rw [htext] at hparse
    obtain rfl := Option.some.inj hparse
    rfl
  · intro hnil
    cases g with
    | nil => rfl
    | triple t rest => simp [isNil] at hnil
    | alternatives bodies rest => simp [isNil] at hnil
    | optional body rest => simp [isNil] at hnil

end Group
end Sparql
end EntityGraph
