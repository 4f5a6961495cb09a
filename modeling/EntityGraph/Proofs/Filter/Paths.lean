import EntityGraph.Proofs.Filter.Renders
import EntityGraph.Proofs.Filter.Value
import EntityGraph.Proofs.Pattern.Full

/-!
# The variables of a path

An interpretation binds variables of a query to what they stand for in the data. In conforming data
the edge of a single-valued navigation property leads to one entity at most, so that a variable is
bound to what its edge leads to, if the interpretation takes the edge. Hence the variables of a path
are bound to what the path leads to.
-/
namespace EntityGraph

open Sparql

variable {schema : Schema} {data : Dataset} {w : Survey} {base : Nat} {σ : Assignment}

/-- Variables with an edge are reached over it; all others have a type, are bound to members of it, and
have numbers below `base`. -/
structure Survey.Interprets (schema : Schema) (data : Dataset) (w : Survey) (base : Nat) (σ : Assignment) :
    Prop where
  linked : ∀ {v t r h}, σ v = some t → w.chart.link v = some (r, h) → ∃ n, σ r = some n ∧ data.Leads h n t
  kinded : ∀ {v t}, σ v = some t → w.chart.link v = none → ∃ T, w.chart.kind v = some T
  member : ∀ {v t T}, σ v = some t → w.chart.link v = none → w.chart.kind v = some T →
    Member schema data T t
  number_lt : ∀ {v t}, σ v = some t → w.chart.link v = none → variableNumber v < base

def Chart.free (chart : Chart) (σ : Assignment) : Set String :=
  {v | chart.link v = none ∧ (σ v).isSome}

namespace Survey

theorem Interprets.closed (hσ : w.Interprets schema data base σ) :
    w.chart.Closed data (w.chart.free σ) σ := by
  intro v t hv
  cases hl : w.chart.link v with
  | none => exact Or.inl ⟨hl, by simp [hv]⟩
  | some link =>
      obtain ⟨r, h⟩ := link
      obtain ⟨n, hn, hlead⟩ := hσ.linked hv hl
      exact Or.inr ⟨r, h, n, rfl, hn, hlead⟩

theorem Interprets.good (hw : w.Sound schema) (hσ : w.Interprets schema data base σ) :
    ∀ v t, σ v = some t → w.chart.Good schema data v t :=
  hσ.closed.good hw.ordered (fun _ hv _ ht _ hT => hσ.member ht hv.1 hT) hw.toProper.good_step

theorem Interprets.eq_neighbour (hσ : w.Interprets schema data base σ) {v r : String} {h : Hop}
    (hl : w.chart.link v = some (r, h)) (hsat : w.chart.SaturatedAt data σ v)
    (hone : ∀ n a b, σ r = some n → data.Leads h n a → data.Leads h n b → a = b) :
    σ v = (σ r).bind (data.neighbour? h) := by
  cases hn : σ r with
  | none =>
      rw [Option.bind_none]
      by_contra hsome
      obtain ⟨t, ht⟩ := Option.ne_none_iff_exists'.mp hsome
      obtain ⟨n, hn', -⟩ := hσ.linked ht hl
      simp [hn] at hn'
  | some n =>
      rw [Option.bind_some]
      cases hm : data.neighbour? h n with
      | none =>
          by_contra hsome
          obtain ⟨t, ht⟩ := Option.ne_none_iff_exists'.mp hsome
          obtain ⟨n', hn', hlead⟩ := hσ.linked ht hl
          obtain rfl : n = n' := Option.some.inj (hn.symm.trans hn')
          have := Dataset.neighbour?_isSome hlead
          simp [hm] at this
      | some m =>
          have hlead := Dataset.leads_of_neighbour? hm
          obtain ⟨t, ht⟩ := Option.isSome_iff_exists.mp (hsat r h n m hl hn hlead)
          obtain ⟨n', hn', hlead'⟩ := hσ.linked ht hl
          obtain rfl : n = n' := Option.some.inj (hn.symm.trans hn')
          rw [ht, hone n t m hn hlead' hlead]

section Walks

variable (hs : schema.Accepted) (hdata : Conforms schema data) (hw : w.Sound schema)
  (hσ : w.Interprets schema data base σ) {q r o : Place} {T t O : EntityType} {p : Property}

include hs hdata hw hσ

theorem Interprets.related_eq (hT : w.chart.kind q.var = some T) (hp : p ∈ T.properties)
    (he : p.isElementary = false) (hsingle : p.isSingle = true) {h : Hop} (hh : schema.hop p = .ok h)
    (hr : w.names.related? q p.name = some r) (hsat : w.chart.SaturatedAt data σ r.var) :
    σ r.var = (σ q.var).bind (data.neighbour? h) := by
  obtain ⟨-, t, h', -, hh', -, hl⟩ := hw.related_of hs hT hp hr
  obtain rfl : h = h' := Except.ok.inj (hh.symm.trans hh')
  refine hσ.eq_neighbour hl hsat fun n a b hn ha hb => ?_
  exact hdata.single (hσ.good hw _ _ hn T hT) hp he hsingle hh ha hb

theorem Interprets.value_eq (hT : w.chart.kind q.var = some T) (hp : p ∈ T.properties)
    (he : p.isElementary = true) (hf : p.foreignKeyOf = none) {v : String}
    (hv : w.names.value? q p.name = some v) (hsat : w.chart.SaturatedAt data σ v) :
    σ v = (σ q.var).bind (data.neighbour? p.valueHop) := by
  obtain ⟨-, hl⟩ | ⟨navigation, -, hk, -⟩ := hw.value_of hs hT hp hv
  · refine hσ.eq_neighbour hl hsat fun n a b hn ha hb => ?_
    exact hdata.value (hσ.good hw _ _ hn T hT) hp he hf ha hb
  · simp [hf] at hk

theorem Walk.follow_eq {names vs : List String} {b : Bool} (h : w.Walk schema q T names o O vs b)
    (hT : w.chart.kind q.var = some T) (hsat : ∀ v ∈ vs, w.chart.SaturatedAt data σ v) (optional : Bool) :
    w.chart.kind o.var = some O ∧
      Spot.follow schema data ⟨T, σ q.var, optional⟩ names = some ⟨O, σ o.var, optional || b⟩ := by
  induction h generalizing optional with
  | nil => exact ⟨hT, by simp [Spot.follow]⟩
  | cons hp he hsingle ht hh hr _ ih =>
      obtain ⟨hsatr, hsat⟩ := List.forall_mem_cons.mp hsat
      obtain ⟨hmem, hname⟩ := EntityType.mem_of_property? hp
      subst hname
      obtain ⟨-, t', h, ht', -, hkind, -⟩ := hw.related_of hs hT hmem hr
      obtain rfl := Except.ok.inj (ht.symm.trans ht')
      have hnext := hσ.related_eq hs hdata hw hT hmem he hsingle hh hr hsatr
      rw [Spot.follow]
      simp only [Spot.step, hp, hh, ht, Except.toOption, Option.bind_eq_bind, Option.bind_some,
        Option.pure_def, ← hnext]
      rw [← Bool.or_assoc]
      exact ih hkind hsat _

theorem Last.value_eq (hids : schema.OwnIds) {name v : String} {us : List String} {b : Bool}
    (h : w.Last schema o O name v us b) (hO : w.chart.kind o.var = some O)
    (hsat : ∀ v ∈ us, w.chart.SaturatedAt data σ v) (optional : Bool) :
    Spot.value schema data ⟨O, σ o.var, optional⟩ name = some (σ v, optional || b) := by
  cases h with
  | value hp he hf hv =>
      obtain ⟨hmem, hname⟩ := EntityType.mem_of_property? hp
      have heq := hσ.value_eq hs hdata hw hO hmem he hf (by rw [hname]; exact hv) (hsat v (by simp))
      simp [Spot.value, hp, hf, Spot.ownValue, ← heq]
  | foreignKey hp he hf hrel hrelem hsingle ht hh hi hr hv =>
      obtain ⟨hmem, -⟩ := EntityType.mem_of_property? hrel
      obtain ⟨-, t', h, ht', -, hkind, -⟩ := hw.related_of hs hO hmem hr
      obtain rfl := Except.ok.inj (ht.symm.trans ht')
      obtain ⟨i', himem, hname, hi', hie, -⟩ := hs.id (hw.declared hkind)
      obtain rfl := Option.some.inj (hi.symm.trans hi')
      have hown := hids _ (hw.declared hkind) _ hi
      have hnext := hσ.related_eq hs hdata hw hO hmem hrelem hsingle hh hr (hsat _ (by simp))
      have heq := hσ.value_eq hs hdata hw hkind himem hie hown (by rw [hname]; exact hv) (hsat _ (by simp))
      simp [Spot.value, Spot.step, hp, hf, hrel, hh, ht, hi, Except.toOption, Spot.ownValue, ← hnext, ← heq,
        Bool.or_assoc]

end Walks
end Survey

namespace Filter

variable {q : Place} {T : EntityType} {lambda : String → Option (Place × EntityType)}

def settingOf (lambda : String → Option (Place × EntityType)) (σ : Assignment) : Setting :=
  fun name => (lambda name).map fun (place, type) => ⟨type, σ place.var, false⟩

theorem startAt_eq {path rest : List String} {s : Place} {S : EntityType}
    (h : startOf lambda q T path = (s, S, rest)) :
    startAt ⟨T, σ q.var, false⟩ (settingOf lambda σ) path = (⟨S, σ s.var, false⟩, rest) := by
  cases path with
  | nil =>
      obtain ⟨rfl, rfl, rfl⟩ : q = s ∧ T = S ∧ [] = rest := by simpa [startOf] using h
      rfl
  | cons first more =>
      cases hlambda : lambda first with
      | none =>
          obtain ⟨rfl, rfl, rfl⟩ : q = s ∧ T = S ∧ first :: more = rest := by
            simpa [startOf, hlambda] using h
          simp [startAt, settingOf, hlambda]
      | some found =>
          obtain ⟨rfl, rfl, rfl⟩ : found.1 = s ∧ found.2 = S ∧ more = rest := by
            simpa [startOf, hlambda] using h
          simp [startAt, settingOf, hlambda]

theorem wayTo_eq {path init : List String} {last : String} {s : Place} {S : EntityType}
    (hstart : startOf lambda q T path = (s, S, init ++ [last])) {spot : Spot}
    (hspot : Spot.follow schema data ⟨S, σ s.var, false⟩ init = some spot) :
    wayTo schema data ⟨T, σ q.var, false⟩ (settingOf lambda σ) path = some (spot, last) := by
  simp [wayTo, startAt_eq hstart, hspot]

end Filter
end EntityGraph
