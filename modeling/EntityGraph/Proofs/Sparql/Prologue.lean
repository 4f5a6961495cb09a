import EntityGraph.Proofs.Schema.Accepted
import EntityGraph.Proofs.Sparql.Tokens
import Mathlib.Data.List.Basic
import Mathlib.Data.List.TakeWhile

/-!
# Reading the declared prefixes

The grammar of a prologue: each line that starts with `PREFIX` declares one prefix, and the first other
line ends the prologue. The declarations at the head of a query are read line by line.

A schema is accepted only with namespaces that can stand between angle brackets, but its prefixes are
not looked at unless a predicate or a class uses them. So the prologue of a query is read back as the
declared prefixes exactly if all of them are names. A prefix that is none can close its own declaration
and go on with another one.
-/
namespace EntityGraph

namespace Text

def lines (text : String) : List (List Char) := splitAt '\n' text.toList

theorem splitAt_append {separator : Char} {line : List Char} (h : separator ∉ line) (rest : List Char) :
    splitAt separator (line ++ separator :: rest) = line :: splitAt separator rest := by
  induction line with
  | nil => simp [splitAt]
  | cons c more ih =>
      obtain ⟨hc, hmore⟩ := not_or.mp (mt List.mem_cons.mpr h)
      rw [List.cons_append, splitAt, if_neg (Ne.symm hc), ih hmore]

theorem exists_splitAt_append (separator : Char) (first rest : List Char) (h : separator ∉ first) :
    ∃ line more, splitAt separator (first ++ rest) = (first ++ line) :: more := by
  induction first with
  | nil =>
      induction rest with
      | nil => exact ⟨[], [], rfl⟩
      | cons c rest ih =>
          obtain ⟨line, more, hrest⟩ := ih
          rw [List.nil_append] at hrest ⊢
          unfold splitAt
          split
          · exact ⟨[], _, rfl⟩
          · rw [hrest]
            exact ⟨c :: line, more, rfl⟩
  | cons c first ih =>
      obtain ⟨hc, hfirst⟩ := not_or.mp (mt List.mem_cons.mpr h)
      obtain ⟨line, more, hline⟩ := ih hfirst
      refine ⟨line, more, ?_⟩
      rw [List.cons_append, splitAt, if_neg (Ne.symm hc), hline]
      rfl

end Text

namespace Sparql.Prologue

def isNameChar (c : Char) : Bool := c.isAlphanum || c == '_' || c == '-'

def isIriChar (c : Char) : Bool :=
  !("<>\"\x7b\x7d|^\x60\\".toList.contains c) && !Text.isBlank c

/-- Letters, digits, underscores and hyphens, of which the first is a letter. -/
def IsPrefix (name : String) : Prop :=
  name.toList.head?.any Char.isAlpha = true ∧ ∀ c ∈ name.toList, isNameChar c = true

def IsIri (iri : String) : Prop := ∀ c ∈ iri.toList, isIriChar c = true

instance (name : String) : Decidable (IsPrefix name) := @instDecidableAnd _ _ _ (List.decidableBAll _ _)

instance (iri : String) : Decidable (IsIri iri) := List.decidableBAll _ _

def declaration? (line : List Char) : Option (String × String) := do
  let afterKeyword ← line.dropPrefix? "PREFIX ".toList
  let name := afterKeyword.takeWhile isNameChar
  let afterName ← (afterKeyword.dropWhile isNameChar).dropPrefix? ": <".toList
  let iri := afterName.takeWhile isIriChar
  if name.head?.any Char.isAlpha && afterName.dropWhile isIriChar == ['>'] then
    some (String.ofList name, String.ofList iri)
  else none

/-- The declarations at the front of some lines, and the lines after them. -/
def read? : List (List Char) → Option (List (String × String) × List (List Char))
  | [] => some ([], [])
  | line :: rest =>
    if "PREFIX".toList.isPrefixOf line then do
      let declared ← declaration? line
      let (others, after) ← read? rest
      return (declared :: others, after)
    else some ([], line :: rest)

theorem isIriChar_of_isNamespaceChar {c : Char} (h : Name.isNamespaceChar c = true) : isIriChar c = true := h

theorem ne_newline_of_isNameChar {c : Char} (h : isNameChar c = true) : c ≠ '\n' := by
  rintro rfl
  simp [isNameChar] at h

theorem ne_newline_of_isIriChar {c : Char} (h : isIriChar c = true) : c ≠ '\n' := by
  rintro rfl
  exact absurd h (by decide)

theorem takeWhile_stop {α : Type} {p : α → Bool} {xs : List α} (hxs : ∀ x ∈ xs, p x = true) {y : α}
    (hy : p y = false) (rest : List α) :
    (xs ++ y :: rest).takeWhile p = xs ∧ (xs ++ y :: rest).dropWhile p = y :: rest := by
  rw [List.takeWhile_append_of_pos hxs, List.dropWhile_append_of_pos hxs]
  simp [hy]

/-- A line that declares a prefix. -/
def written (declared : String × String) : List Char :=
  "PREFIX ".toList ++ (declared.1.toList ++ (": <".toList ++ (declared.2.toList ++ ['>'])))

theorem declaration?_written {declared : String × String} (hname : IsPrefix declared.1)
    (hiri : IsIri declared.2) : declaration? (written declared) = some declared := by
  obtain ⟨name, iri⟩ := declared
  obtain ⟨hfirst, hchars⟩ := hname
  obtain ⟨hbefore, hafter⟩ := takeWhile_stop hchars (y := ':') (by decide)
    (' ' :: '<' :: (iri.toList ++ ['>']))
  obtain ⟨hinside, hclose⟩ := takeWhile_stop hiri (y := '>') (by decide) []
  have hkeyword : (written (name, iri)).dropPrefix? "PREFIX ".toList =
      some (name.toList ++ ':' :: ' ' :: '<' :: (iri.toList ++ ['>'])) :=
    List.dropPrefix?_append_of_beq _ (BEq.refl _)
  have hcolon : (':' :: ' ' :: '<' :: (iri.toList ++ ['>'])).dropPrefix? ": <".toList = some
    (iri.toList ++ ['>']) :=
    @List.dropPrefix?_append_of_beq _ _ ": <".toList _ _ (BEq.refl _)
  simp only at hbefore hafter hinside hclose hfirst
  simp only [declaration?, hkeyword, Option.bind_eq_bind, Option.bind_some, hbefore, hafter, hcolon,
    hinside, hclose, hfirst, BEq.refl, Bool.and_self, if_true, String.ofList_toList]

theorem isPrefix_of_declaration? {line : List Char} {declared : String × String}
    (h : declaration? line = some declared) : IsPrefix declared.1 := by
  simp only [declaration?, Option.bind_eq_bind, Option.bind_eq_some_iff] at h
  obtain ⟨afterKeyword, -, afterName, -, h⟩ := h
  split at h
  · next hformed =>
      obtain rfl := Option.some.inj h
      obtain ⟨hfirst, -⟩ := Bool.and_eq_true_iff.mp hformed
      refine ⟨by simpa using hfirst, fun c hc => ?_⟩
      rw [String.toList_ofList] at hc
      exact List.mem_takeWhile_imp hc
  · simp at h

theorem isPrefix_of_read? {text after : List (List Char)} {declared : List (String × String)}
    (h : read? text = some (declared, after)) : ∀ d ∈ declared, IsPrefix d.1 := by
  induction text generalizing declared with
  | nil =>
      obtain ⟨rfl, -⟩ := Prod.mk.inj (Option.some.inj h)
      simp
  | cons line rest ih =>
      unfold read? at h
      split at h
      · simp only [Option.bind_eq_bind, Option.bind_eq_some_iff] at h
        obtain ⟨first, hfirst, ⟨others, later⟩, hothers, h⟩ := h
        obtain ⟨rfl, rfl⟩ := Prod.mk.inj (Option.some.inj h)
        exact List.forall_mem_cons.mpr ⟨isPrefix_of_declaration? hfirst, ih hothers⟩
      · obtain ⟨rfl, -⟩ := Prod.mk.inj (Option.some.inj h)
        simp

theorem newline_notMem_written {declared : String × String} (hname : IsPrefix declared.1)
    (hiri : IsIri declared.2) : '\n' ∉ written declared := by
  have hnames : '\n' ∉ declared.1.toList := fun hmem => ne_newline_of_isNameChar (hname.2 '\n' hmem) rfl
  have hiris : '\n' ∉ declared.2.toList := fun hmem => ne_newline_of_isIriChar (hiri '\n' hmem) rfl
  unfold written
  simp only [List.mem_append, not_or]
  exact ⟨by decide, hnames, by decide, hiris, by decide⟩

theorem lines_header_cons {declared : String × String} (hname : IsPrefix declared.1) (hiri : IsIri declared.2)
    (others : List (String × String)) (text : String) :
    Text.lines (Query.header (declared :: others) ++ text) =
      written declared :: Text.lines (Query.header others ++ text) := by
  have hheader : Query.header (declared :: others) =
      "PREFIX " ++ declared.1 ++ ": <" ++ declared.2 ++ ">\n" ++ Query.header others := by
    unfold Query.header
    rw [List.map_cons, String.join_cons]
    rfl
  have hline : (Query.header (declared :: others) ++ text).toList =
      written declared ++ '\n' :: (Query.header others ++ text).toList := by
    have hend : ">\n".toList = ['>', '\n'] := rfl
    rw [hheader]
    simp only [String.toList_append]
    rw [hend]
    unfold written
    -- the keyword stays closed: nothing has to be computed
    generalize "PREFIX ".toList = keyword
    generalize ": <".toList = separator
    simp only [List.append_assoc, List.cons_append, List.nil_append]
  rw [Text.lines, hline, Text.splitAt_append (newline_notMem_written hname hiri), ← Text.lines]

theorem read?_header {declared : List (String × String)} (h : ∀ d ∈ declared, IsPrefix d.1 ∧ IsIri d.2)
    (text : String) : read? (Text.lines (Query.header declared ++ text)) =
      (read? (Text.lines text)).map fun (others, after) => (declared ++ others, after) := by
  induction declared with
  | nil =>
      rw [show Query.header [] = "" from rfl, String.empty_append]
      cases read? (Text.lines text) <;> rfl
  | cons first others ih =>
      obtain ⟨⟨hname, hiri⟩, hothers⟩ := List.forall_mem_cons.mp h
      have hkeyword : "PREFIX".toList.isPrefixOf (written first) = true :=
        List.isPrefixOf_iff_prefix.mpr ⟨_, (rfl : "PREFIX".toList ++ ' ' :: _ = written first)⟩
      rw [lines_header_cons hname hiri, read?, if_pos hkeyword, declaration?_written hname hiri, ih hothers]
      cases read? (Text.lines text) <;> rfl

theorem read?_selection (query : Query) :
    read? (Text.lines query.selection) = some ([], Text.lines query.selection) := by
  obtain ⟨rest, hrest⟩ := query.starts_selection
  obtain ⟨line, more, hlines⟩ := Text.exists_splitAt_append '\n' "SELECT".toList rest (by decide)
  rw [hrest] at hlines
  rw [Text.lines, hlines, read?, if_neg (by simp [List.isPrefixOf])]

end Sparql.Prologue

open Sparql Prologue

namespace Schema

variable {prefixes : List (String × String)} {types : List EntityType} {sets : List (String × String)}
  {schema : Schema}

theorem isIri_of_build (h : build prefixes types sets = .ok schema) : ∀ d ∈ schema.prefixes, IsIri d.2 := by
  intro d hd
  dsimp only [build] at h
  split at h
  · simp at h
  · next hnone =>
      obtain rfl := Except.ok.inj h
      have hfault := (Option.or_eq_none_iff.mp hnone).2
      unfold fault? at hfault
      have hspaces := (Option.or_eq_none_iff.mp (Option.or_eq_none_iff.mp hfault).1).1
      have hspace : namespaceFault? d.1 d.2 = none := List.findSome?_eq_none_iff.mp hspaces d hd
      unfold namespaceFault? at hspace
      split at hspace
      · next hiri =>
          obtain ⟨-, hchars⟩ := Bool.and_eq_true_iff.mp hiri
          exact fun c hc => isIriChar_of_isNamespaceChar (List.all_eq_true.mp hchars c hc)
      · simp at hspace

/-- The declarations of a query over an accepted schema are read as the declared prefixes, and nothing is
left before the selection, exactly if all prefixes are names. -/
theorem prologue_iff (h : build prefixes types sets = .ok schema) (group : Group)
    (condition : Option String) : let query : Query := ⟨schema.prefixes, group, condition⟩
    read? (Text.lines query.text) = some (schema.prefixes, Text.lines query.selection) ↔
      ∀ d ∈ schema.prefixes, IsPrefix d.1 := by
  intro query
  rw [Query.text_eq]
  refine ⟨isPrefix_of_read?, fun hnames => ?_⟩
  rw [read?_header fun d hd => ⟨hnames d hd, isIri_of_build h d hd⟩, read?_selection]
  simp [query]

def identified : EntityType := ⟨"Thing", none,
    [{ name := "Id", target := "Edm.Int32", predicate := "ex:id" }]⟩

theorem prologue_iff_sample :
    build [("ex", "http://example.org/")] [identified] [] =
        .ok ⟨[("ex", "http://example.org/"), (rdfPrefix, rdfNamespace)], [identified], []⟩ ∧
      let query : Query := ⟨[("ex", "http://example.org/"), (rdfPrefix, rdfNamespace)], .nil, some "true"⟩
      read? (Text.lines query.text) =
        some ([("ex", "http://example.org/"), (rdfPrefix, rdfNamespace)], Text.lines query.selection) := by
  have hbuilt : build [("ex", "http://example.org/")] [identified] [] =
      .ok ⟨[("ex", "http://example.org/"), (rdfPrefix, rdfNamespace)], [identified], []⟩ := by decide +kernel
  exact ⟨hbuilt, (prologue_iff hbuilt .nil (some "true")).mpr (by decide +kernel)⟩

/-- A prefix that closes its declaration and begins another one. -/
def injecting : List (String × String) :=
  [("a: <http://a.example/>\nPREFIX b", "http://b.example/"), ("ex", "http://example.org/")]

theorem prologue_injected :
    let declared := withRdf injecting
    let injected := [("a", "http://a.example/"), ("b", "http://b.example/"), ("ex", "http://example.org/"),
      (rdfPrefix, rdfNamespace)]
    let query : Query := ⟨declared, .nil, none⟩
    build injecting [identified] [] = .ok ⟨declared, [identified], []⟩ ∧
      read? (Text.lines query.text) = some (injected, Text.lines query.selection) ∧ injected ≠ declared := by
  intro declared injected query
  have hheader : Query.header declared = Query.header injected := by decide +kernel
  have hformed : ∀ d ∈ injected, IsPrefix d.1 ∧ IsIri d.2 := by decide +kernel
  refine ⟨by decide +kernel, ?_, by decide⟩
  rw [Query.text_eq, hheader, read?_header hformed, read?_selection]
  rfl

end Schema
end EntityGraph
