import EntityGraph.Proofs.Filter.Isolated
import EntityGraph.Proofs.Filter.Placed
import EntityGraph.Proofs.Filter.Selection
import EntityGraph.Proofs.Filter.Unquoted
import EntityGraph.Proofs.Filter.Variables

/-!
# The verdict of a condition

A selection is judged from the terms that its paths stand for. Its verdict has three values: a comparison of a
term with nothing is an error, and so is one of terms that cannot be compared; two absent values are equal.
The clause that the selection is compiled to has the value of the verdict, whatever the variables are bound
to, as long as `null` stands for nothing and the values that are always there are there. The text of the
clause is read as the clause.
-/
namespace EntityGraph

open Sparql

/-- Variables of the query language and its numerals, and whatever names. -/
def Vocabulary.legible : Vocabulary where
  name _ := True
  var name := isVariableName name = true
  numeral text := isNumeral text = true

theorem isVariableName_variableName (k : Nat) : isVariableName (variableName k) = true := by
  have hdigit : ∀ c ∈ Nat.toDigits 10 k, c.isAlphanum = true := fun c hc => by
    simp [Char.isAlphanum, Binary64.isDigit_of_mem_toDigits k c hc]
  have hx : ('x').isAlphanum = true := by decide
  simpa [isVariableName, toList_variableName, hx] using fun c hc => Or.inl (hdigit c hc)

theorem Vocabulary.legible_covers (schema : Schema) : legible.Covers schema :=
  ⟨fun _ _ => trivial, isVariableName_variableName⟩

theorem Sparql.Clause.plain_nullSafeEqual {left right : Clause} (hl : left.Plain) (hr : right.Plain)
    (mayBeUnbound : Bool) : (nullSafeEqual left right mayBeUnbound).Plain := by
  unfold nullSafeEqual
  split
  · exact ⟨⟨hl, hr⟩, rfl, hl, hr⟩
  · exact ⟨hl, hr⟩

namespace Filter

def operandTerm (term : List String → Option Term) : Filter → Option Term
  | string text => some (.ofString text)
  | number v => (numberText v).toOption.map .ofNumeral
  | boolean b => some (.ofBool b)
  | property path => term path
  | parentheses inner => inner.operandTerm term
  | _ => none

/-- Two absent values are equal; a term and nothing cannot be compared. -/
def compare? (ops : Operators) : Option Term → Option Term → Option Bool
  | none, none => some true
  | some a, some b => ops.equal a b
  | _, _ => none

/-- Whether a selection is satisfied, or why that cannot be said. -/
def verdict (ops : Operators) (term : List String → Option Term) : Filter → Option Bool
  | boolean b => some b
  | and left right => conjunction (left.verdict ops term) (right.verdict ops term)
  | or left right => disjunction (left.verdict ops term) (right.verdict ops term)
  | eq left right => compare? ops (left.operandTerm term) (right.operandTerm term)
  | parentheses inner => inner.verdict ops term
  | _ => none

/-- Whether a selection is satisfied, with two truth values. -/
def satisfied (ops : Operators) (term : List String → Option Term) : Filter → Bool
  | boolean b => b
  | and left right => left.satisfied ops term && right.satisfied ops term
  | or left right => left.satisfied ops term || right.satisfied ops term
  | eq left right => agree ops (left.operandTerm term) (right.operandTerm term)
  | parentheses inner => inner.satisfied ops term
  | _ => false

section Truth

variable {ops : Operators} {term : List String → Option Term}

theorem compare?_beq_true (a b : Option Term) : (compare? ops a b == some true) = agree ops a b := by
  cases a <;> cases b <;> rfl

theorem verdict_beq_true (f : Filter) : (f.verdict ops term == some true) = f.satisfied ops term := by
  induction f with
  | boolean b => cases b <;> rfl
  | and left right ihl ihr => rw [verdict, conjunction_beq_true, ihl, ihr, satisfied]
  | or left right ihl ihr => rw [verdict, disjunction_beq_true, ihl, ihr, satisfied]
  | eq left right => exact compare?_beq_true _ _
  | parentheses inner ih => exact ih
  | _ => rfl

theorem equality_eq_compare? {a b : Option Term} {absentAreEqual : Bool}
    (h : a = none → b = none → absentAreEqual = true) :
    equality ops absentAreEqual a b = (compare? ops a b).map .ofBool := by
  cases a with
  | none =>
      cases b with
      | none =>
          rw [h rfl rfl]
          rfl
      | some b => rfl
  | some a => cases b <;> rfl

end Truth

variable {context : FilterContext} {scope : FilterScope} {position : Position} {session after : Session}
  {f left right : Filter}

/-- A run that leaves a clause that can be read, with the variables of the paths in it. -/
structure Legible (context : FilterContext) (f : Filter) (scope : FilterScope) (position : Position)
    (session : Session) (compiled : CompiledFilter) (after : Session) : Prop where
  names : after.names.Worded .legible
  keeps : session.names.Keeps after.names
  plain : compiled.clause.Plain
  paths : (f.values context scope position session).map (·.1) = f.paths
  found : ∀ result ∈ f.values context scope position session, ∃ v, result.2.clause = .var v ∧
    scope.valueVar? context.schema position after.names result.1 = some v

theorem Legible.plain_of {clause : Clause} {names : Naming} (hn : names.Worded .legible)
    (hkeeps : session.names.Keeps names) (hclause : clause.Plain) (hpaths : f.paths = [])
    (hvalues : f.values context scope position session = []) (mayBeUnbound : Bool) :
    Legible context f scope position session { clause, mayBeUnbound } { session with names } where
  names := hn
  keeps := hkeeps
  plain := hclause
  paths := by rw [hpaths, hvalues, List.map_nil]
  found _ h := by simp [hvalues] at h

theorem Legible.both {result : CompiledFilter → CompiledFilter → CompiledFilter}
    (hclause : ∀ l r, l.clause.Plain → r.clause.Plain → (result l r).clause.Plain)
    (hpaths : f.paths = left.paths ++ right.paths)
    (hvalues : f.values context scope position session = left.values context scope position session ++
      right.values context scope position ((left.compile context scope position).run.run session).2)
    (hl : Ends (left.compile context scope position) session (Legible context left scope position session)
      fun _ => True)
    (hr : ∀ {between : Session}, between.names.Worded .legible →
      Ends (right.compile context scope position) between
      (Legible context right scope position between) fun _ => True) :
    Ends (do
        return result (← left.compile context scope position) (← right.compile context scope position))
      session (Legible context f scope position session) fun _ => True := by
  rw [ends_bind]
  refine hl.and_run.imp (fun l between h => ?_) fun _ => id
  obtain ⟨hl, hrun⟩ := h
  rw [hrun] at hvalues
  rw [ends_bind]
  refine (hr hl.names).imp (fun r after hr => ?_) fun _ => id
  refine ⟨hr.names, hl.keeps.trans hr.keeps, hclause l r hl.plain hr.plain, ?_, ?_⟩
  · rw [hpaths, hvalues, List.map_append, hl.paths, hr.paths]
  · rw [hvalues, List.forall_mem_append]
    refine ⟨fun found hfound => ?_, hr.found⟩
    obtain ⟨v, hclause, hv⟩ := hl.found found hfound
    exact ⟨v, hclause, hr.keeps.valueVar? hv⟩

theorem legible_compile (hs : context.schema.Accepted) (hf : f.anys = 0)
    (hn : session.names.Worded .legible) :
    Ends (f.compile context scope position) session (Legible context f scope position session)
      fun _ => True := by
  induction f generalizing session with
  | string value => exact .plain_of hn (.refl _) (show (Clause.string value).Plain from trivial) rfl rfl _
  | boolean value => exact .plain_of hn (.refl _) (show (Clause.boolean value).Plain from trivial) rfl rfl _
  | null => 
      have hkeeps : session.names.Keeps session.names.fresh.2 := ⟨id, id, rfl⟩
      have hvar : (Clause.var session.names.fresh.1).Plain := isVariableName_variableName _
      have hnames : session.names.fresh.2.Worded .legible := hn
      exact .plain_of hnames hkeeps hvar rfl rfl _
  | number value =>
      unfold compile
      split
      · next text htext =>
          exact .plain_of hn (.refl _) (show (Clause.number text).Plain from isNumeral_numberText
            htext) rfl rfl _
      · trivial
  | and left right ihl ihr =>
      obtain ⟨hl, hr⟩ := Nat.add_eq_zero_iff.mp hf
      exact Legible.both (fun _ _ => And.intro) rfl rfl (ihl hl hn) fun hn => ihr hr hn
  | or left right ihl ihr =>
      obtain ⟨hl, hr⟩ := Nat.add_eq_zero_iff.mp hf
      exact Legible.both (fun _ _ => And.intro) rfl rfl (ihl hl hn) fun hn => ihr hr hn
  | eq left right ihl ihr =>
      obtain ⟨hl, hr⟩ := Nat.add_eq_zero_iff.mp hf
      exact Legible.both (fun _ _ hl hr => Clause.plain_nullSafeEqual hl hr _) rfl rfl (ihl hl hn)
        fun hn => ihr hr hn
  | parentheses inner ih => exact (ih hf hn).imp (fun _ _ h => { h with }) fun _ => id
  | property path =>
      have hrun := ((finds_compileProperty context scope position path session).and
        (speaks_compileProperty hs (Vocabulary.legible_covers _) hn)).and_run
      refine hrun.imp (fun compiled after h => ?_) fun _ _ => trivial
      obtain ⟨⟨⟨hkeeps, ⟨v, hclause, hv⟩, -⟩, hnames, -, hworded, -⟩, hrun⟩ := h
      have hvalues : (property path).values context scope position session = [(path, compiled)] := by
        simp only [values, hrun]
      refine ⟨hnames, hkeeps, ?_, ?_, ?_⟩
      · rw [hclause] at hworded ⊢
        exact hworded
      · rw [hvalues]
        rfl
      · rw [hvalues, List.forall_mem_singleton]
        exact ⟨v, hclause, hv⟩
  | any path name predicate => simp [anys] at hf

/-- The terms of the paths are those of their variables; the values that are always there are there, and
nothing stands for `null`. -/
structure Agrees (term : List String → Option Term) (σ : Assignment)
    (values : List (List String × CompiledFilter)) (nulls : List String) : Prop where
  nulls : ∀ v ∈ nulls, σ v = none
  paths : ∀ result ∈ values, ∃ v, result.2.clause = .var v ∧ term result.1 = σ v
  bound : ∀ result ∈ values, result.2.mayBeUnbound = false → (term result.1).isSome = true

theorem agrees_append {term : List String → Option Term} {σ : Assignment}
    {values more : List (List String × CompiledFilter)} {nulls others : List String} :
    Agrees term σ (values ++ more) (nulls ++ others) ↔ Agrees term σ values nulls ∧
      Agrees term σ more others := by
  constructor
  · rintro ⟨hnulls, hterm, hbound⟩
    rw [List.forall_mem_append] at hnulls hterm hbound
    exact ⟨⟨hnulls.1, hterm.1, hbound.1⟩, hnulls.2, hterm.2, hbound.2⟩
  · rintro ⟨hl, hr⟩
    exact ⟨List.forall_mem_append.mpr ⟨hl.nulls, hr.nulls⟩, List.forall_mem_append.mpr ⟨hl.paths, hr.paths⟩,
      List.forall_mem_append.mpr ⟨hl.bound, hr.bound⟩⟩

theorem Legible.agrees {compiled : CompiledFilter}
    (h : Legible context f scope position session compiled after)
    {σ : Assignment} (hnulls : ∀ v ∈ f.nulls compiled.clause, σ v = none)
    (hbound : ∀ result ∈ f.values context scope position session, result.2.mayBeUnbound = false →
      ∀ v, result.2.clause = .var v → (σ v).isSome = true) :
    Agrees (fun path => (scope.valueVar? context.schema position after.names path).bind σ) σ
      (f.values context scope position session) (f.nulls compiled.clause) where
  nulls := hnulls
  paths result hresult := by
    obtain ⟨v, hclause, hv⟩ := h.found result hresult
    exact ⟨v, hclause, by rw [hv, Option.bind_some]⟩
  bound result hresult hmust := by
    obtain ⟨v, hclause, hv⟩ := h.found result hresult
    rw [hv, Option.bind_some]
    exact hbound result hresult hmust v hclause

section Values

variable {σ : Assignment} {term : List String → Option Term}
  {compiled : CompiledFilter}

theorem run_both {x y : FilterM CompiledFilter} {result : CompiledFilter → CompiledFilter → CompiledFilter}
    (h : (do return result (← x) (← y) : FilterM CompiledFilter).run.run session = (.ok compiled, after)) :
    ∃ l between r, x.run.run session = (.ok l, between) ∧ y.run.run between = (.ok r, after) ∧
      compiled = result l r := by
  rw [run_bind] at h
  split at h
  · next l between hl =>
      rw [run_bind] at h
      split at h
      · next r last hr =>
          obtain ⟨hresult, rfl⟩ := Prod.mk.inj h
          exact ⟨l, between, r, hl, hr, (Except.ok.inj hresult).symm⟩
      · cases (Prod.mk.inj h).1
  · cases (Prod.mk.inj h).1

theorem value_operand (hf : f.isOperand = true)
    (hrun : (f.compile context scope position).run.run session = (.ok compiled, after))
    (hagrees : Agrees term σ (f.values context scope position session) (f.nulls compiled.clause))
    (ops : Operators) (data : Dataset) :
    compiled.clause.value ops data σ = f.operandTerm term ∧
      (f.operandTerm term = none → compiled.clause.isVar = true ∧ compiled.mayBeUnbound = true) := by
  induction f with
  | string value =>
      obtain ⟨hresult, rfl⟩ := Prod.mk.inj hrun
      obtain rfl := Except.ok.inj hresult
      exact ⟨rfl, nofun⟩
  | boolean value =>
      obtain ⟨hresult, rfl⟩ := Prod.mk.inj hrun
      obtain rfl := Except.ok.inj hresult
      exact ⟨rfl, nofun⟩
  | number value =>
      unfold compile at hrun
      split at hrun
      · next text htext =>
          obtain ⟨hresult, rfl⟩ := Prod.mk.inj hrun
          obtain rfl := Except.ok.inj hresult
          simp [Clause.value, operandTerm, htext, Except.toOption]
      · cases (Prod.mk.inj hrun).1
  | null =>
      obtain ⟨hresult, rfl⟩ := Prod.mk.inj hrun
      obtain rfl := Except.ok.inj hresult
      exact ⟨hagrees.nulls _ (by simp [nulls]), fun _ => ⟨rfl, rfl⟩⟩
  | property path =>
      have hvalues : (property path).values context scope position session = [(path, compiled)] := by
        rw [compile] at hrun
        simp only [values, hrun]
      rw [hvalues] at hagrees
      obtain ⟨v, hclause, hterm⟩ := hagrees.paths _ (List.mem_singleton_self _)
      have hvar : compiled.clause = .var v := hclause
      refine ⟨by rw [hvar, Clause.value, operandTerm, hterm], fun hnone => ⟨?_, ?_⟩⟩
      · rw [hvar]
        rfl
      · by_contra hunbound
        have := hagrees.bound _ (List.mem_singleton_self _) (by simpa using hunbound)
        rw [show term path = none from hnone] at this
        simp at this
  | parentheses inner ih => exact ih hf hrun hagrees
  | _ => simp [isOperand] at hf

theorem value_selection (hf : f.isSelection = true)
    (hrun : (f.compile context scope position).run.run session = (.ok compiled, after))
    (hagrees : Agrees term σ (f.values context scope position session) (f.nulls compiled.clause))
    (ops : Operators) (data : Dataset) : compiled.clause.value ops data σ =
    (f.verdict ops term).map .ofBool := by
  induction f, hf using selection_induction generalizing session compiled after with
  | boolean b =>
      obtain ⟨hresult, rfl⟩ := Prod.mk.inj hrun
      obtain rfl := Except.ok.inj hresult
      rfl
  | and left right _ _ ihl ihr =>
      obtain ⟨l, between, r, hl, hr, rfl⟩ := run_both hrun
      rw [values, hl] at hagrees
      obtain ⟨hagreesl, hagreesr⟩ := agrees_append.mp hagrees
      rw [Clause.value, ihl hl hagreesl, ihr hr hagreesr, bind_truth_map_ofBool,
        bind_truth_map_ofBool, verdict]
  | or left right _ _ ihl ihr =>
      obtain ⟨l, between, r, hl, hr, rfl⟩ := run_both hrun
      rw [values, hl] at hagrees
      obtain ⟨hagreesl, hagreesr⟩ := agrees_append.mp hagrees
      rw [Clause.value, ihl hl hagreesl, ihr hr hagreesr, bind_truth_map_ofBool,
        bind_truth_map_ofBool, verdict]
  | eq left right hfl hfr =>
      obtain ⟨l, between, r, hl, hr, rfl⟩ := run_both hrun
      rw [values, hl, nulls_nullSafeEqual] at hagrees
      obtain ⟨hagreesl, hagreesr⟩ := agrees_append.mp hagrees
      obtain ⟨hvaluel, habsentl⟩ := value_operand hfl hl hagreesl ops data
      obtain ⟨hvaluer, habsentr⟩ := value_operand hfr hr hagreesr ops data
      rw [value_nullSafeEqual, hvaluel, hvaluer, verdict]
      -- where both are absent, both are variables and one of them may be unbound
      refine equality_eq_compare? fun hnonel hnoner => ?_
      rw [(habsentl hnonel).1, (habsentl hnonel).2, (habsentr hnoner).1]
      rfl
  | parentheses inner _ ih => exact ih hrun hagrees

end Values

theorem anys_of_isOperand (hf : f.isOperand = true) : f.anys = 0 := by
  induction f with
  | parentheses inner ih => exact ih hf
  | and left right => simp [isOperand] at hf
  | or left right => simp [isOperand] at hf
  | eq left right => simp [isOperand] at hf
  | any path name predicate => simp [isOperand] at hf
  | _ => rfl

theorem anys_of_isSelection (hf : f.isSelection = true) : f.anys = 0 := by
  induction f, hf using selection_induction with
  | boolean b => rfl
  | and left right _ _ ihl ihr => exact Nat.add_eq_zero_iff.mpr ⟨ihl, ihr⟩
  | or left right _ _ ihl ihr => exact Nat.add_eq_zero_iff.mpr ⟨ihl, ihr⟩
  | eq left right hl hr => exact Nat.add_eq_zero_iff.mpr ⟨anys_of_isOperand hl, anys_of_isOperand hr⟩
  | parentheses inner _ ih => exact ih

end Filter
end EntityGraph
