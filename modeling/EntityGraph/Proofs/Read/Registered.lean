import EntityGraph.Proofs.Placement.Registry
import EntityGraph.Proofs.Read.Conforms
import EntityGraph.Read.Compile

/-!
# Reads under other registries

Everything that is compiled asks a registry only which rule places a branch. So two registries that
agree in this give the same outcome of every request, be it a fault or a query with its names. A
registry of the builtin rules agrees with the builtin one, in whatever order and how often the rules
were registered, and whatever rules are behind them.
-/
namespace EntityGraph

variable {rules others : List Rule} (h : Rule.choose rules = Rule.choose others)

include h

theorem Forest.place_congr (forest : Forest) (position : Position) (names : Naming) :
    forest.place rules position names = forest.place others position names := by
  induction forest generalizing position names with
  | nil => rfl
  | cons branch below rest ihBelow ihRest => simp only [place, h, ihBelow, ihRest]

theorem Forest.placeAll_congr (forest : Forest) (position : Position) (names : Naming) :
    forest.placeAll rules position names = forest.placeAll others position names := by
  simp only [placeAll, forest.place_congr h]

theorem ExpandTree.compile_congr (schema : Schema) (owner : EntityType) (expand : ExpandTree)
    (position : Position) (names : Naming) :
    expand.compile schema rules owner position names = expand.compile schema others owner position names := by
  simp only [compile, Forest.placeAll_congr h]

namespace Filter

variable (schema : Schema) (key : Nat → ScopeKey)

theorem placeJoin_congr (position : Position) (forest : Forest) :
    placeJoin ⟨schema, rules, key⟩ position forest = placeJoin ⟨schema, others, key⟩ position forest := by
  simp only [placeJoin, forest.place_congr h]

omit h

theorem navigateAll_congr (rules others : List Rule) (path : List String) (cursor : Cursor)
    (rest : List String) :
    navigateAll ⟨schema, rules, key⟩ path cursor rest = navigateAll
      ⟨schema, others, key⟩ path cursor rest := by
  induction rest generalizing cursor with
  | nil => rfl
  | cons name rest ih => simp only [navigateAll, ih]; rfl

theorem follow_congr (rules others : List Rule) (scope : FilterScope) (position : Position)
    (path : List String) (missing : PathFault) : follow ⟨schema, rules, key⟩ scope position path missing =
      follow ⟨schema, others, key⟩ scope position path missing := by
  simp only [follow, navigateAll_congr schema key rules others]
  rfl

theorem compileProperty_congr (rules others : List Rule) (scope : FilterScope) (position : Position)
    (path : List String) :
    compileProperty ⟨schema, rules, key⟩ scope position path =
      compileProperty ⟨schema, others, key⟩ scope position path := by
  simp only [compileProperty, follow_congr schema key rules others]
  rfl

theorem compileCollection_congr (rules others : List Rule) (scope : FilterScope) (position : Position)
    (path : List String) :
    compileCollection ⟨schema, rules, key⟩ scope position path =
      compileCollection ⟨schema, others, key⟩ scope position path := by
  simp only [compileCollection, follow_congr schema key rules others]

include h

theorem compile_congr (f : Filter) (scope : FilterScope) (position : Position) :
    f.compile ⟨schema, rules, key⟩ scope position = f.compile ⟨schema, others, key⟩ scope position := by
  induction f generalizing scope position with
  | string _ => rfl
  | number _ => rfl
  | boolean _ => rfl
  | null => rfl
  | and left right ihl ihr => simp only [compile, ihl, ihr]
  | or left right ihl ihr => simp only [compile, ihl, ihr]
  | eq left right ihl ihr => simp only [compile, ihl, ihr]
  | parentheses inner ih => simp only [compile, ih]
  | property path => exact compileProperty_congr schema key rules others scope position path
  | any path lambda predicate ih =>
      simp only [compile, ih, placeJoin_congr h, compileCollection_congr schema key rules others]
      rfl

end Filter

theorem Reader.compile_congr (schema : Schema) (key : Nat → ScopeKey) (request : ReadRequest) :
    (Reader.mk schema rules key).compile request = (Reader.mk schema others key).compile request := by
  simp only [compile, compilePattern, compileFilter, ExpandTree.compile_congr h, Filter.compile_congr h,
    Forest.placeAll_congr h]

omit h

/-- Of the builtin rules exactly one applies to every branch. So the outcome of a request does not depend on
the order in which they were registered, nor on how often, as long as each of them was; and further rules
behind them change nothing. -/
theorem Reader.compile_registry (reader : Reader) (request : ReadRequest) {steps : List Registration}
    (hbuiltin : ∀ step ∈ steps, step.rule ∈ Rule.builtin)
    (hall : ∀ rule ∈ Rule.builtin, rule ∈ steps.map Registration.rule) :
    (∀ branch : Branch, ∃! rule, rule ∈ Rule.builtin ∧ rule.applies branch = true) ∧
    { reader with rules := Registration.registry steps }.compile request =
      { reader with rules := Rule.builtin }.compile request ∧
    ∀ more : List Rule,
      { reader with rules := Registration.registry (steps ++ more.map Registration.push) }.compile request =
        { reader with rules := Rule.builtin }.compile request := by
  have hchoose := Rule.choose_registry hbuiltin hall
  refine ⟨fun branch => ?_, ?_, fun more => ?_⟩
  · exact ⟨Rule.assigned branch, ⟨Rule.assigned_mem branch, Rule.assigned_applies branch⟩,
      fun rule hrule => Rule.eq_assigned hrule.1 hrule.2⟩
  · exact compile_congr (by simpa using hchoose []) reader.schema reader.key request
  · rw [Registration.registry_append_push]
    exact compile_congr (hchoose more) reader.schema reader.key request

namespace Sample

def registrations : List Registration :=
  [.push .anyElement, .prepend .optionalElementary, .push .elementaryId, .prepend .multiValuedComplex,
   .push .foreignKeyElementary, .prepend .inScopeVariable, .push .mandatoryElementary, .prepend .anyElement,
   .push .singleValuedComplex]

def refusing : Rule where
  name := "refusing"
  applies _ := true
  place branch _ _ := .error (.noRule branch)

end Sample

/-- The things with a part that has a label, under rules in another order and before one that
places nothing. -/
theorem Reader.compile_registry_sample :
    (∀ step ∈ Sample.registrations, step.rule ∈ Rule.builtin) ∧
    (∀ rule ∈ Rule.builtin, rule ∈ Sample.registrations.map Registration.rule) ∧
    ∃ query, Reader.compile { schema := Sample.schema } ⟨"Things", .cons "Parts" .nil .nil,
        some (.any ["Parts"] "x" (.eq (.property ["x", "Label"]) (.string "rim"))), none⟩ = .ok query ∧
      Reader.compile ⟨Sample.schema, Registration.registry
        (Sample.registrations ++ [Sample.refusing].map .push), id⟩ ⟨"Things", .cons "Parts" .nil .nil,
          some (.any ["Parts"] "x" (.eq (.property ["x", "Label"]) (.string "rim"))), none⟩ = .ok query := by
  have hbuiltin : ∀ step ∈ Sample.registrations, step.rule ∈ Rule.builtin := by
    simp [Sample.registrations, Registration.rule, Rule.builtin]
  have hall : ∀ rule ∈ Rule.builtin, rule ∈ Sample.registrations.map Registration.rule := by
    simp [Sample.registrations, Registration.rule, Rule.builtin]
  obtain ⟨query, hquery⟩ : ∃ query, Reader.compile { schema := Sample.schema }
    ⟨"Things", .cons "Parts" .nil .nil,
      some (.any ["Parts"] "x" (.eq (.property ["x", "Label"]) (.string "rim"))), none⟩ =
        .ok query := ⟨_, rfl⟩
  refine ⟨hbuiltin, hall, query, hquery, ?_⟩
  rw [(Reader.compile_registry ⟨Sample.schema, Rule.builtin, id⟩ _ hbuiltin hall).2.2 [Sample.refusing]]
  exact hquery

end EntityGraph
