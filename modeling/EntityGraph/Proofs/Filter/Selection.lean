import EntityGraph.Proofs.Filter.Meaning

/-!
# Selections

A selection combines truth values and comparisons of literals, `null` and values of the entity. It has a
reading with two truth values, in which two absent values are equal. The value of a selection has three
truth values, and two absent values are compared only where the schema lets one of them be absent; but in
conforming data no other value is absent, and a selection is satisfied in the one reading exactly if it is
satisfied in the other.
-/
namespace EntityGraph.Filter

open Sparql

def isOperand : Filter → Bool
  | string _ => true
  | number _ => true
  | boolean _ => true
  | null => true
  | property _ => true
  | parentheses inner => inner.isOperand
  | _ => false

def isSelection : Filter → Bool
  | boolean _ => true
  | and left right => left.isSelection && right.isSelection
  | or left right => left.isSelection && right.isSelection
  | eq left right => left.isOperand && right.isOperand
  | parentheses inner => inner.isSelection
  | _ => false

theorem selection_induction {motive : (f : Filter) → f.isSelection = true → Prop}
    (boolean : ∀ b, motive (boolean b) rfl)
    (and : ∀ left right (hl : left.isSelection = true) (hr : right.isSelection = true), motive left hl →
      motive right hr → motive (and left right) (Bool.and_eq_true_iff.mpr ⟨hl, hr⟩))
    (or : ∀ left right (hl : left.isSelection = true) (hr : right.isSelection = true), motive left hl →
      motive right hr → motive (or left right) (Bool.and_eq_true_iff.mpr ⟨hl, hr⟩))
    (eq : ∀ left right (hl : left.isOperand = true) (hr : right.isOperand = true),
      motive (eq left right) (Bool.and_eq_true_iff.mpr ⟨hl, hr⟩))
    (parentheses : ∀ inner (h : inner.isSelection = true), motive inner h → motive (parentheses inner) h)
    (f : Filter) (hf : f.isSelection = true) : motive f hf := by
  induction f with
  | boolean b => exact boolean b
  | and left right ihl ihr =>
      obtain ⟨hl, hr⟩ := Bool.and_eq_true_iff.mp hf
      exact and left right hl hr (ihl hl) (ihr hr)
  | or left right ihl ihr =>
      obtain ⟨hl, hr⟩ := Bool.and_eq_true_iff.mp hf
      exact or left right hl hr (ihl hl) (ihr hr)
  | eq left right =>
      obtain ⟨hl, hr⟩ := Bool.and_eq_true_iff.mp hf
      exact eq left right hl hr
  | parentheses inner ih => exact parentheses inner hf (ih hf)
  | _ => simp [isSelection] at hf

/-- Both sides are absent, or both are there and equal. -/
def agree (ops : Operators) : Option Term → Option Term → Bool
  | none, none => true
  | some a, some b => ops.equal a b == some true
  | _, _ => false

/-- Whether a selection is satisfied, with two truth values. -/
def selects (ops : Operators) (schema : Schema) (data : Dataset) (here : Spot) : Filter → Bool
  | boolean b => b
  | and left right => left.selects ops schema data here && right.selects ops schema data here
  | or left right => left.selects ops schema data here || right.selects ops schema data here
  | eq left right => agree ops (left.value ops schema data here fun _ => none)
      (right.value ops schema data here fun _ => none)
  | parentheses inner => inner.selects ops schema data here
  | _ => false

section Truth

variable (ops : Operators)

theorem bind_truth_map_ofBool (x : Option Bool) : (x.map Term.ofBool).bind ops.truth = x := by
  cases x with
  | none => rfl
  | some b => exact ops.truth_ofBool b

theorem conjunction_beq_true (x y : Option Bool) :
    (conjunction x y == some true) = (x == some true && y == some true) := by
  rcases x with _ | _ | _ <;> rcases y with _ | _ | _ <;> rfl

theorem disjunction_beq_true (x y : Option Bool) :
    (disjunction x y == some true) = (x == some true || y == some true) := by
  rcases x with _ | _ | _ <;> rcases y with _ | _ | _ <;> rfl

theorem equality_holds {a b : Option Term} {absentAreEqual : Bool}
    (h : a = none → b = none → absentAreEqual = true) :
    ((equality ops absentAreEqual a b).bind ops.truth == some true) = agree ops a b := by
  cases a with
  | none =>
      cases b with
      | none =>
          rw [h rfl rfl]
          simp [equality, agree, ops.truth_ofBool]
      | some b => rfl
  | some a =>
      cases b with
      | none => rfl
      | some b =>
          simp only [equality, bind_truth_map_ofBool]
          rfl

end Truth

variable {schema : Schema} {data : Dataset} {here : Spot} {setting : Setting} {f : Filter}

theorem grounded_of_isOperand (h : f.isOperand = true) : f.Grounded schema data here setting := by
  induction f with
  | parentheses f ih => exact ih h
  | and f g => simp [isOperand] at h
  | or f g => simp [isOperand] at h
  | eq f g => simp [isOperand] at h
  | any path x f => simp [isOperand] at h
  | _ => trivial

section Absent

variable {w : Survey} {q o : Place} {T O : EntityType} {base : Nat} {c : Clause} {b : Bool}
  {vs us names : List String} {σ : Assignment} {name v : String}
  {lambda : String → Option (Place × EntityType)}
  (hs : schema.Accepted) (hids : schema.OwnIds) (hdata : Conforms schema data) (hw : w.Sound schema)
  (hσ : w.Interprets schema data base σ)

include hs hdata hw hσ

theorem related_isSome {r : Place} {p : Property} {h : Hop} (hT : w.chart.kind q.var = some T)
    (hp : p ∈ T.properties) (he : p.isElementary = false) (hsingle : p.isSingle = true)
    (hh : schema.hop p = .ok h) (hr : w.names.related? q p.name = some r)
    (hsat : w.chart.SaturatedAt data σ r.var) (hq : (σ q.var).isSome) :
    (σ r.var).isSome ∨ (!p.isMandatory) = true := by
  cases hm : p.isMandatory with
  | false => exact Or.inr rfl
  | true =>
      obtain ⟨n, hn⟩ := Option.isSome_iff_exists.mp hq
      obtain ⟨m, hlead⟩ := hdata.required (hσ.good hw _ _ hn T hT) (.related hp he hsingle hm hh)
      rw [hσ.related_eq hs hdata hw hT hp he hsingle hh hr hsat, hn, Option.bind_some]
      exact Or.inl (Dataset.neighbour?_isSome hlead)

theorem value_isSome {p : Property} (hT : w.chart.kind q.var = some T) (hp : p ∈ T.properties)
    (he : p.isElementary = true) (hf : p.foreignKeyOf = none) (hv : w.names.value? q p.name = some v)
    (hsat : w.chart.SaturatedAt data σ v) (hq : (σ q.var).isSome) :
    (σ v).isSome ∨ (!p.isMandatory) = true := by
  cases hm : p.isMandatory with
  | false => exact Or.inr rfl
  | true =>
      obtain ⟨n, hn⟩ := Option.isSome_iff_exists.mp hq
      obtain ⟨m, hlead⟩ := hdata.required (hσ.good hw _ _ hn T hT) (.value hp he hf hm)
      rw [hσ.value_eq hs hdata hw hT hp he hf hv hsat, hn, Option.bind_some]
      exact Or.inl (Dataset.neighbour?_isSome hlead)

theorem walk_isSome (h : w.Walk schema q T names o O vs b) (hT : w.chart.kind q.var = some T)
    (hsat : ∀ v ∈ vs, w.chart.SaturatedAt data σ v) (hq : (σ q.var).isSome) :
    (σ o.var).isSome ∨ b = true := by
  induction h with
  | nil => exact Or.inl hq
  | cons hp he hsingle ht hh hr hrest ih =>
      obtain ⟨hsatr, hsat⟩ := List.forall_mem_cons.mp hsat
      obtain ⟨hmem, rfl⟩ := EntityType.mem_of_property? hp
      obtain ⟨-, t', h, ht', -, hkind, -⟩ := hw.related_of hs hT hmem hr
      obtain rfl := Except.ok.inj (ht.symm.trans ht')
      obtain hr' | hoptional := related_isSome hs hdata hw hσ hT hmem he hsingle hh hr hsatr hq
      · exact (ih hkind hsat hr').imp id fun h => by rw [h, Bool.or_true]
      · exact Or.inr (by rw [hoptional, Bool.true_or])

include hids

theorem last_isSome (h : w.Last schema o O name v us b) (hO : w.chart.kind o.var = some O)
    (hsat : ∀ v ∈ us, w.chart.SaturatedAt data σ v) (ho : (σ o.var).isSome) :
    (σ v).isSome ∨ b = true := by
  cases h with
  | value hp he hf hv =>
      obtain ⟨hmem, rfl⟩ := EntityType.mem_of_property? hp
      exact value_isSome hs hdata hw hσ hO hmem he hf hv (hsat _ (by simp)) ho
  | foreignKey hp he hf hrel hrelem hsingle ht hh hi hr hv =>
      obtain ⟨hmem, -⟩ := EntityType.mem_of_property? hrel
      obtain ⟨-, t', h, ht', -, hkind, -⟩ := hw.related_of hs hO hmem hr
      obtain rfl := Except.ok.inj (ht.symm.trans ht')
      obtain ⟨himem, hname⟩ := EntityType.mem_of_property? hi
      obtain ⟨i', -, -, hi', hie, -⟩ := hs.id (hw.declared hkind)
      obtain rfl := Option.some.inj (hi.symm.trans hi')
      obtain hr' | hoptional := related_isSome hs hdata hw hσ hO hmem hrelem hsingle hh hr
        (hsat _ (by simp)) ho
      · exact (value_isSome hs hdata hw hσ hkind himem hie (hids _ (hw.declared hkind) _ hi)
          (by rw [hname]; exact hv) (hsat _ (by simp)) hr').imp id fun h => by rw [h, Bool.or_true]
      · exact Or.inr (by rw [hoptional, Bool.true_or])

theorem Renders.mayBeAbsent_of_eq_none {ops : Operators} (h : Renders schema w q T base lambda f c b vs)
    (hf : f.isOperand = true) (hlambda : lambda = fun _ => none)
    (hsat : ∀ v ∈ vs, w.chart.SaturatedAt data σ v)
    (hq : (σ q.var).isSome) (hnone : c.value ops data σ = none) : b = true ∧ f.isVariable = true := by
  induction h with
  | string => simp [Clause.value] at hnone
  | number => simp [Clause.value] at hnone
  | boolean => simp [Clause.value] at hnone
  | null => exact ⟨rfl, rfl⟩
  | parentheses _ ih => exact ih hσ hf hlambda hsat hnone
  | @property base lambda path init vs us s o S O last v b b' hstart hkind hwalk hlast =>
      subst hlambda
      obtain ⟨hvs, hus⟩ := List.forall_mem_append.mp hsat
      have hs' : (σ s.var).isSome :=
        startOf_present hstart (fun _ h => h) hq (by simp [among])
      have hO := (hwalk.follow_eq hs hdata hw hσ hkind hvs false).1
      refine ⟨?_, rfl⟩
      obtain ho | hb := walk_isSome hs hdata hw hσ hwalk hkind hvs hs'
      · obtain hv | hb := last_isSome hs hids hdata hw hσ hlast hO hus ho
        · have hnone' : σ v = none := hnone
          simp [hnone'] at hv
        · rw [hb, Bool.or_true]
      · rw [hb, Bool.true_or]
  | _ => simp [isOperand] at hf

theorem Renders.holds_eq_selects {ops : Operators} (h : Renders schema w q T base lambda f c b vs)
    (hf : f.isSelection = true) (hlambda : lambda = fun _ => none)
    (hsat : ∀ v ∈ vs, w.chart.SaturatedAt data σ v) (hlink : w.chart.link q.var = none)
    (hbase : q.number < base) (hq : (σ q.var).isSome) :
    c.holds ops data σ = f.selects ops schema data ⟨T, σ q.var, false⟩ := by
  induction h with
  | @boolean base lambda b =>
      simp only [Clause.holds, Clause.value, Option.bind_some, ops.truth_ofBool, selects]
      cases b <;> rfl
  | @and base lambda f g c d b b' vs us _ _ ihf ihg =>
      obtain ⟨hself, hselg⟩ := Bool.and_eq_true_iff.mp hf
      obtain ⟨hvs, hus⟩ := List.forall_mem_append.mp hsat
      rw [selects, ← ihf hσ hself hlambda hvs hbase, ← ihg hσ hselg hlambda hus hbase]
      simp only [Clause.holds, Clause.value, bind_truth_map_ofBool]
      exact conjunction_beq_true _ _
  | @or base lambda f g c d b b' vs us _ _ ihf ihg =>
      obtain ⟨hself, hselg⟩ := Bool.and_eq_true_iff.mp hf
      obtain ⟨hvs, hus⟩ := List.forall_mem_append.mp hsat
      rw [selects, ← ihf hσ hself hlambda hvs hbase, ← ihg hσ hselg hlambda hus hbase]
      simp only [Clause.holds, Clause.value, bind_truth_map_ofBool]
      exact disjunction_beq_true _ _
  | @eq base lambda f g c d b b' vs us hrf hrg _ _ =>
      obtain ⟨hopf, hopg⟩ := Bool.and_eq_true_iff.mp hf
      obtain ⟨hvs, hus⟩ := List.forall_mem_append.mp hsat
      subst hlambda
      have hapart : Apart w base fun _ => none := by simp [Apart]
      have hvf : c.value ops data σ = f.value ops schema data ⟨T, σ q.var, false⟩ fun _ => none :=
        hrf.value_eq hs hids hdata hw hσ hapart hlink hbase hq hvs (grounded_of_isOperand hopf)
      have hvg : d.value ops data σ = g.value ops schema data ⟨T, σ q.var, false⟩ fun _ => none :=
        hrg.value_eq hs hids hdata hw hσ hapart hlink hbase hq hus (grounded_of_isOperand hopg)
      rw [selects, ← hvf, ← hvg, Clause.holds, value_nullSafeEqual]
      refine equality_holds ops fun hfnone hgnone => ?_
      obtain ⟨hb, hvarf⟩ := hrf.mayBeAbsent_of_eq_none hs hids hdata hw hσ hopf rfl hvs hq hfnone
      obtain ⟨-, hvarg⟩ := hrg.mayBeAbsent_of_eq_none hs hids hdata hw hσ hopg rfl hus hq hgnone
      rw [hrf.isVar_eq, hrg.isVar_eq, hvarf, hvarg, hb]
      rfl
  | parentheses _ ih => exact ih hσ hf hlambda hsat hbase
  | _ => simp [isSelection] at hf

end Absent
end EntityGraph.Filter
