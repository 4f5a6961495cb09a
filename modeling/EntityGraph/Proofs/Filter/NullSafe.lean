import EntityGraph.Proofs.Filter.Verdict

/-!
# Null-safe comparisons

The text of a condition is true in the query language exactly if the filter is satisfied with two truth
values, where two absent values are equal. So an error in the query language stands for what is not satisfied;
but it is not false, and a comparison with `false` is satisfied by what is false only.
-/
namespace EntityGraph

open Sparql

variable {context : FilterContext} {scope : FilterScope} {position : Position} {session after : Session}
  {f : Filter} {compiled : CompiledFilter}

namespace Filter

/-- The clause of a selection is read back from its text. It is true exactly if the selection is satisfied
with two truth values by the terms of the variables of its paths, whatever the variables are bound to, as long
as nothing stands for `null` and the values that are always there are there. -/
theorem compile_nullSafe (hs : context.schema.Accepted)
    (hnames : ∀ q name v, session.names.value? q name = some v → isVariableName v = true)
    (hf : f.isSelection = true)
    (hrun : (f.compile context scope position).run.run session = (.ok compiled, after)) :
    ∃ clause, Clause.parse? compiled.clause.text = some clause ∧
      (f.values context scope position session).map (·.1) = f.paths ∧
      (∀ result ∈ f.values context scope position session, ∃ v, result.2.clause = .var v ∧
        scope.valueVar? context.schema position after.names result.1 = some v) ∧
      ∀ (ops : Operators) (data : Dataset) (σ : Assignment),
        (∀ v ∈ f.nulls compiled.clause, σ v = none) →
        (∀ result ∈ f.values context scope position session, result.2.mayBeUnbound = false →
          ∀ v, result.2.clause = .var v → (σ v).isSome = true) →
        (clause.holds ops data σ = true ↔
          f.satisfied ops
            (fun path => (scope.valueVar? context.schema position after.names path).bind σ) = true) := by
  have hlegible := (legible_compile hs (anys_of_isSelection hf) hnames).of_run hrun
  refine ⟨compiled.clause, Clause.parse?_text hlegible.plain, hlegible.paths, hlegible.found,
    fun ops data σ hnulls hbound => ?_⟩
  have hvalue := value_selection hf hrun (hlegible.agrees hnulls hbound) ops data
  rw [Clause.holds, hvalue, bind_truth_map_ofBool, verdict_beq_true]

end Filter

namespace Sample

def compiler : FilterContext := { schema, rules := Rule.builtin }

def things : FilterScope := ⟨"Thing", []⟩

def start : Session := { names := Reader.startingPosition.2 }

def ownWhole : Filter :=
  .parentheses (.and (.boolean true) (.eq (.property ["Id"]) (.property ["WholeId"])))

def nameless : Filter := .or (.eq (.property ["Label"]) .null) ownWhole

def numbered : Assignment := fun v =>
  if v = "?x0" then some (.iri "ex:part") else if v = "?x3" then some (.ofNumeral "1") else none

theorem start_names : ∀ q name v, start.names.value? q name = some v → isVariableName v = true :=
  fun q name v hv => absurd (show (none : Option String) = some v from hv) (by simp)

theorem nameless_run : ∃ compiled after,
    (nameless.compile compiler things Reader.startingPosition.1).run.run start = (.ok compiled, after) ∧
    (∀ v ∈ nameless.nulls compiled.clause, numbered v = none) ∧
    ∀ result ∈ nameless.values compiler things Reader.startingPosition.1 start,
      result.2.mayBeUnbound = false → ∀ v, result.2.clause = .var v → (numbered v).isSome = true := by
  have htext : ∀ result ∈ nameless.values compiler things Reader.startingPosition.1 start,
      result.2.mayBeUnbound = false → result.2.clause.text = "?x3" := by decide
  refine ⟨_, _, rfl, by decide, fun result hresult hmust v hclause => ?_⟩
  have hv := htext result hresult hmust
  rw [hclause] at hv
  obtain rfl : v = "?x3" := hv
  rfl

end Sample

theorem Filter.compile_nullSafe_sample : Sample.schema.Accepted ∧ Sample.nameless.isSelection = true ∧
    ∃ compiled after clause,
      (Sample.nameless.compile Sample.compiler Sample.things Reader.startingPosition.1).run.run Sample.start =
        (.ok compiled, after) ∧
      Clause.parse? compiled.clause.text = some clause ∧
      (clause.holds Sample.operators Sample.data Sample.numbered = true ↔
        Sample.nameless.satisfied Sample.operators (fun path => (Sample.things.valueVar? Sample.schema
          Reader.startingPosition.1 after.names path).bind Sample.numbered) = true) := by
  obtain ⟨compiled, after, hrun, hnulls, hbound⟩ := Sample.nameless_run
  obtain ⟨clause, hparse, -, -, hholds⟩ := compile_nullSafe Sample.accepted Sample.start_names rfl hrun
  exact ⟨Sample.accepted, rfl, compiled, after, clause, hrun, hparse, hholds _ _ _ hnulls hbound⟩

namespace Filter

/-- In every comparison both sides are absent, or they are terms that can be compared. -/
def isSettled (ops : Operators) (term : List String → Option Term) : Filter → Bool
  | and left right => left.isSettled ops term && right.isSettled ops term
  | or left right => left.isSettled ops term && right.isSettled ops term
  | eq left right => (compare? ops (left.operandTerm term) (right.operandTerm term)).isSome
  | parentheses inner => inner.isSettled ops term
  | _ => true

theorem isSome_conjunction {x y : Option Bool} (hx : x.isSome = true) (hy : y.isSome = true) :
    (conjunction x y).isSome = true := by
  rcases x with _ | _ | _ <;> rcases y with _ | _ | _ <;> simp_all [conjunction]

theorem isSome_disjunction {x y : Option Bool} (hx : x.isSome = true) (hy : y.isSome = true) :
    (disjunction x y).isSome = true := by
  rcases x with _ | _ | _ <;> rcases y with _ | _ | _ <;> simp_all [disjunction]

theorem isSome_verdict {ops : Operators} {term : List String → Option Term} (hf : f.isSelection = true)
    (h : f.isSettled ops term = true) : (f.verdict ops term).isSome = true := by
  induction f, hf using selection_induction with
  | boolean b => rfl
  | and left right _ _ ihl ihr =>
      obtain ⟨hl, hr⟩ := Bool.and_eq_true_iff.mp h
      exact isSome_conjunction (ihl hl) (ihr hr)
  | or left right _ _ ihl ihr =>
      obtain ⟨hl, hr⟩ := Bool.and_eq_true_iff.mp h
      exact isSome_disjunction (ihl hl) (ihr hr)
  | eq left right => exact h
  | parentheses inner _ ih => exact ih h

theorem run_eq_false (hrun : (f.compile context scope position).run.run session = (.ok compiled, after)) :
    ((eq f (.boolean false)).compile context scope position).run.run session =
      (.ok { clause := .equal compiled.clause (.boolean false), forest := compiled.forest }, after) := by
  have hclause : ∀ mayBeUnbound, Clause.nullSafeEqual compiled.clause (.boolean false) mayBeUnbound =
      .equal compiled.clause (.boolean false) := by
    intro mayBeUnbound
    unfold Clause.nullSafeEqual
    split
    · next hvar => simp at hvar
    · rfl
  rw [compile, run_bind, hrun]
  simp only [compile, pure_bind, hclause]
  rfl

theorem holds_equal_false {ops : Operators} {data : Dataset} {σ : Assignment} {c : Clause} {x : Option Bool}
    (hequal : ∀ a b, ops.equal (.ofBool a) (.ofBool b) = some (a == b))
    (hvalue : c.value ops data σ = x.map .ofBool) :
    (Clause.equal c (.boolean false)).holds ops data σ = true ↔ x = some false := by
  rw [Clause.holds, value_equal, hvalue, Clause.value]
  rcases x with _ | _ | _ <;> simp [equality, hequal, ops.truth_ofBool]

/-- The comparison of a selection with `false` is true exactly if the clause of the selection is false, and
not an error. If everything in the selection can be compared, it is true exactly if the selection is not. -/
theorem compile_negated (hs : context.schema.Accepted)
    (hnames : ∀ q name v, session.names.value? q name = some v → isVariableName v = true)
    (hf : f.isSelection = true)
    (hrun : (f.compile context scope position).run.run session = (.ok compiled, after)) :
    ∃ negated clause negation,
      ((eq f (.boolean false)).compile context scope position).run.run session = (.ok negated, after) ∧
      Clause.parse? compiled.clause.text = some clause ∧ Clause.parse? negated.clause.text = some negation ∧
      ∀ (ops : Operators) (data : Dataset) (σ : Assignment),
        (∀ a b, ops.equal (.ofBool a) (.ofBool b) = some (a == b)) →
        (∀ v ∈ f.nulls compiled.clause, σ v = none) →
        (∀ result ∈ f.values context scope position session, result.2.mayBeUnbound = false →
          ∀ v, result.2.clause = .var v → (σ v).isSome = true) →
        (negation.holds ops data σ = true ↔ clause.value ops data σ = some (.ofBool false)) ∧
        (f.isSettled ops (fun path => (scope.valueVar? context.schema position after.names path).bind σ) =
          true → (negation.holds ops data σ = true ↔ ¬ clause.holds ops data σ = true)) := by
  have hlegible := (legible_compile hs (anys_of_isSelection hf) hnames).of_run hrun
  have hnegation : (Clause.equal compiled.clause (.boolean false)).Plain := ⟨hlegible.plain, trivial⟩
  refine ⟨_, compiled.clause, _, run_eq_false hrun, Clause.parse?_text hlegible.plain,
    Clause.parse?_text hnegation, fun ops data σ hequal hnulls hbound => ?_⟩
  have hvalue := value_selection hf hrun (hlegible.agrees hnulls hbound) ops data
  rw [holds_equal_false hequal hvalue, Clause.holds, hvalue, bind_truth_map_ofBool]
  constructor
  · cases f.verdict ops _ with
    | none => simp
    | some b => cases b <;> simp [Term.ofBool]
  · intro hsettled
    obtain ⟨b, hb⟩ := Option.isSome_iff_exists.mp (isSome_verdict hf hsettled)
    rw [hb]
    cases b <;> simp

end Filter

namespace Sample

def contained : Assignment := fun v =>
  if v = "?x1" then some (.ofNumeral "2") else if v = "?x3" then some (.ofNumeral "1") else none

theorem ownWhole_run : ∃ compiled after,
    (ownWhole.compile compiler things Reader.startingPosition.1).run.run start = (.ok compiled, after) ∧
    ownWhole.isSettled operators (fun path =>
      (things.valueVar? schema Reader.startingPosition.1 after.names path).bind contained) = true ∧
    (∀ v ∈ ownWhole.nulls compiled.clause, contained v = none) ∧
    (∀ result ∈ ownWhole.values compiler things Reader.startingPosition.1 start,
      result.2.mayBeUnbound = false → ∀ v, result.2.clause = .var v → (contained v).isSome = true) ∧
    ∀ clause, Clause.parse? compiled.clause.text = some clause →
      clause.value operators data contained = some (.ofBool false) := by
  have htext : ∀ result ∈ ownWhole.values compiler things Reader.startingPosition.1 start,
      result.2.mayBeUnbound = false → result.2.clause.text = "?x1" := by decide
  refine ⟨_, _, rfl, by decide, by decide, fun result hresult hmust v hclause => ?_, fun clause hclause => ?_⟩
  · have hv := htext result hresult hmust
    rw [hclause] at hv
    obtain rfl : v = "?x1" := hv
    rfl
  · cases hclause
    rfl

end Sample

/-- Things that are their own whole, and things that are part of another one. -/
theorem Filter.compile_negated_sample : Sample.schema.Accepted ∧ Sample.ownWhole.isSelection = true ∧
    ∃ compiled after negated clause negation,
      (Sample.ownWhole.compile Sample.compiler Sample.things Reader.startingPosition.1).run.run Sample.start =
        (.ok compiled, after) ∧
      ((eq Sample.ownWhole (.boolean false)).compile Sample.compiler Sample.things
        Reader.startingPosition.1).run.run Sample.start = (.ok negated, after) ∧
      Clause.parse? compiled.clause.text = some clause ∧ Clause.parse? negated.clause.text = some negation ∧
      Sample.ownWhole.isSettled Sample.operators (fun path => (Sample.things.valueVar? Sample.schema
        Reader.startingPosition.1 after.names path).bind Sample.contained) = true ∧
      clause.value Sample.operators Sample.data Sample.contained = some (.ofBool false) ∧
      negation.holds Sample.operators Sample.data Sample.contained = true ∧
      ¬ clause.holds Sample.operators Sample.data Sample.contained = true := by
  obtain ⟨compiled, after, hrun, hsettled, hnulls, hbound, hfalse⟩ := Sample.ownWhole_run
  have hequal : ∀ a b, Sample.operators.equal (.ofBool a) (.ofBool b) = some (a == b) := by decide
  obtain ⟨negated, clause, negation, hnegated, hparse, hparse', hholds⟩ :=
    compile_negated Sample.accepted Sample.start_names rfl hrun
  obtain ⟨hnegation, hnot⟩ := hholds _ _ _ hequal hnulls hbound
  have hvalue := hnegation.mpr (hfalse clause hparse)
  exact ⟨Sample.accepted, rfl, compiled, after, negated, clause, negation, hrun, hnegated, hparse, hparse',
    hsettled, hfalse clause hparse, hvalue, (hnot hsettled).mp hvalue⟩

namespace Sample

def labelled : Filter := .eq (.property ["Label"]) (.string "part")

end Sample

/-- Of a thing without a label neither the comparison of its label nor the comparison of that with `false` is
true: both are errors. -/
theorem Filter.compile_negated_absent : ∃ compiled negated after clause negation,
    (Sample.labelled.compile Sample.compiler Sample.things Reader.startingPosition.1).run.run Sample.start =
      (.ok compiled, after) ∧
    ((eq Sample.labelled (.boolean false)).compile Sample.compiler Sample.things
      Reader.startingPosition.1).run.run Sample.start = (.ok negated, after) ∧
    Clause.parse? compiled.clause.text = some clause ∧ Clause.parse? negated.clause.text = some negation ∧
    Sample.labelled.isSelection = true ∧
    (∀ v ∈ Sample.labelled.nulls compiled.clause, Sample.numbered v = none) ∧
    (∀ result ∈ Sample.labelled.values Sample.compiler Sample.things Reader.startingPosition.1 Sample.start,
      result.2.mayBeUnbound = true) ∧
    ∀ ops data, ¬ (negation.holds ops data Sample.numbered = true ↔
      ¬ clause.holds ops data Sample.numbered = true) :=
  ⟨_, _, _, .equal (.var "?x1") (.string "part"),
    .equal (.equal (.var "?x1") (.string "part")) (.boolean false),
    rfl, rfl, rfl, rfl, rfl, by decide, by decide, fun ops data => by
      simp [Clause.holds, Clause.value, Sample.numbered]⟩

end EntityGraph
