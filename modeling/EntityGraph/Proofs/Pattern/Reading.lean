import EntityGraph.Proofs.Pattern.Reach

/-!
# Readings of the data

A reading of a chart is a closed assignment that stops nowhere: where the data have an edge of the
chart from a variable that is bound, the variable that the edge leads to is bound as well. Every
closed assignment can be completed to a reading, by following edges of the chart in the order of the
numbers of the variables.

A reading follows the edges of a pattern that fits the chart, provided that the data have the plain
edges of the pattern wherever their roots may be bound.
-/
namespace EntityGraph

open Sparql

namespace Sparql.Dataset

variable {data : Dataset} {h : Hop} {n m : Term}

def neighbour? (data : Dataset) (h : Hop) (n : Term) : Option Term :=
  (data.statements.map fun s => if h.isInverse then s.subject else s.object).find?
    fun m => data.Leads h n m

theorem leads_of_neighbour? (hm : data.neighbour? h n = some m) : data.Leads h n m := by
  simpa using List.find?_some hm

theorem neighbour?_isSome (hm : data.Leads h n m) : (data.neighbour? h n).isSome := by
  rw [neighbour?, List.find?_isSome]
  refine ⟨m, List.mem_map.mpr ?_, by simpa using hm⟩
  unfold Leads at hm
  cases hi : h.isInverse with
  | true =>
      rw [hi, if_pos rfl] at hm
      exact ⟨_, hm, by simp⟩
  | false =>
      rw [hi, if_neg (by simp)] at hm
      exact ⟨_, hm, by simp⟩

end Sparql.Dataset

namespace Chart

variable (chart : Chart)

/-- The terms that are reached from those of `π` by following edges of the chart. -/
def complete (data : Dataset) (π : Assignment) (v : String) : Option Term :=
  match π v with
  | some t => some t
  | none =>
    match chart.link v with
    | none => none
    | some (r, h) =>
      if variableNumber r < variableNumber v then
        (complete data π r).bind (data.neighbour? h)
      else none
termination_by variableNumber v

structure Reading (data : Dataset) (F : Set String) (σ : Assignment) : Prop where
  closed : chart.Closed data F σ
  saturated : ∀ {v r h n m}, chart.link v = some (r, h) → σ r = some n → data.Leads h n m →
    (σ v).isSome

variable {chart} {data : Dataset} {F : Set String} {π σ : Assignment}

theorem Ordered.number_lt (ho : chart.Ordered) {v r : String} {h : Hop}
    (hl : chart.link v = some (r, h)) : variableNumber r < variableNumber v := by
  obtain ⟨i, k, rfl, rfl, hik⟩ := ho v r h hl
  simpa using hik

theorem complete_of_some {v : String} {t : Term} (h : π v = some t) :
    chart.complete data π v = some t := by
  rw [complete, h]

theorem complete_of_link (ho : chart.Ordered) {v r : String} {h : Hop} (hπ : π v = none)
    (hl : chart.link v = some (r, h)) :
    chart.complete data π v = (chart.complete data π r).bind (data.neighbour? h) := by
  rw [complete, hπ, hl]
  simp [ho.number_lt hl]

theorem complete_of_unlinked {v : String} (hπ : π v = none) (hl : chart.link v = none) :
    chart.complete data π v = none := by
  rw [complete, hπ, hl]

theorem sub_complete : π.Sub (chart.complete data π) := fun _ _ h => complete_of_some h

theorem closed_complete (ho : chart.Ordered) (hπ : chart.Closed data F π) :
    chart.Closed data F (chart.complete data π) := by
  intro v t hv
  cases h : π v with
  | some t' =>
      obtain rfl : t' = t := Option.some.inj ((complete_of_some h).symm.trans hv)
      obtain hF | ⟨r, h, n, hl, hn, hlead⟩ := hπ v t' h
      · exact Or.inl hF
      · exact Or.inr ⟨r, h, n, hl, complete_of_some hn, hlead⟩
  | none =>
      cases hl : chart.link v with
      | none => simp [complete_of_unlinked h hl] at hv
      | some link =>
          obtain ⟨r, hop⟩ := link
          rw [complete_of_link ho h hl] at hv
          obtain ⟨n, hn, hm⟩ := Option.bind_eq_some_iff.mp hv
          exact Or.inr ⟨r, hop, n, rfl, hn, Dataset.leads_of_neighbour? hm⟩

theorem reading_complete (ho : chart.Ordered) (hπ : chart.Closed data F π) :
    chart.Reading data F (chart.complete data π) where
  closed := closed_complete ho hπ
  saturated {v r h n m} hl hn hm := by
    cases hv : π v with
    | some t => simp [complete_of_some hv]
    | none =>
        rw [complete_of_link ho hv hl, hn, Option.bind_some]
        exact Dataset.neighbour?_isSome hm

/-- The variables that are bound in a closed assignment satisfy what the chart hands on from
variable to variable. -/
theorem Closed.good (ho : chart.Ordered) (hσ : chart.Closed data F σ) {good : String → Term → Prop}
    (hF : ∀ v ∈ F, ∀ t, σ v = some t → good v t)
    (hstep : ∀ {v r h n m}, chart.link v = some (r, h) → good r n → data.Leads h n m → good v m) :
    ∀ v t, σ v = some t → good v t := by
  intro v
  induction hk : variableNumber v using Nat.strong_induction_on generalizing v with
  | _ k ih =>
      intro t hv
      obtain hvF | ⟨r, h, n, hl, hn, hlead⟩ := hσ v t hv
      · exact hF v hvF t hv
      · have hlt := ho.number_lt hl
        exact hstep hl (ih _ (hk ▸ hlt) r rfl n hn) hlead

def bindNext (π : Assignment) (v : String) (m : Term) : Assignment :=
  fun w => if variableNumber w < variableNumber v then π w else if w = v then some m else none

theorem closed_bindNext (ho : chart.Ordered) (hπ : chart.Closed data F π) {v r : String} {h : Hop}
    {n m : Term} (hl : chart.link v = some (r, h)) (hn : π r = some n) (hm : data.Leads h n m) :
    chart.Closed data F (bindNext π v m) := by
  intro w t hw
  unfold bindNext at hw
  split at hw
  · next hlt =>
      obtain hF | ⟨r', h', n', hl', hn', hlead⟩ := hπ w t hw
      · exact Or.inl hF
      · have hlt' := (ho.number_lt hl').trans hlt
        exact Or.inr ⟨r', h', n', hl', by rw [bindNext, if_pos hlt', hn'], hlead⟩
  · split at hw
    · next hwv =>
        obtain rfl : m = t := by simpa using hw
        subst hwv
        exact Or.inr ⟨r, h, n, hl, by rw [bindNext, if_pos (ho.number_lt hl), hn], hm⟩
    · simp at hw

/-- A reading can be changed to lead to another term over one edge, and stays the same before it. -/
theorem Reading.exists_via (ho : chart.Ordered) (hσ : chart.Reading data F σ) {v r : String}
    {h : Hop} {n m : Term} (hl : chart.link v = some (r, h)) (hn : σ r = some n)
    (hm : data.Leads h n m) :
    ∃ τ, chart.Reading data F τ ∧ τ v = some m ∧
      ∀ w, variableNumber w < variableNumber v → (σ w).isSome → τ w = σ w := by
  refine ⟨chart.complete data (bindNext σ v m),
    reading_complete ho (closed_bindNext ho hσ.closed hl hn hm), ?_, ?_⟩
  · exact complete_of_some (by simp [bindNext])
  · intro w hlt hsome
    obtain ⟨t, ht⟩ := Option.isSome_iff_exists.mp hsome
    rw [ht]
    exact complete_of_some (by rw [bindNext, if_pos hlt, ht])

end Chart

namespace Body

variable {chart : Chart} {data : Dataset} {env σ : Assignment} {F : Set String}

/-- The data have the leaves and the plain edges of a pattern at every term that is good for their
root. -/
def supplied (data : Dataset) (good : String → Term → Prop) : Condition where
  leaf root predicate term := ∀ n, good root n →
    ⟨n, data.resolve predicate, data.resolve term⟩ ∈ data.statements
  edge root e := e.isOptional = false → ∀ n, good root n → ∃ m, data.Leads e.hop n m
  conjunct _ _ := True

def avoiding (F : Set String) : Condition where
  leaf _ _ _ := True
  edge _ e := e.target ∉ F
  conjunct _ _ := True

theorem followed_of_reading (hσ : chart.Reading data F σ) {good : String → Term → Prop}
    (hgood : ∀ v t, σ v = some t → good v t) {B : Body} {root : String}
    (hB : B.Each (chart.fits env) root) (hs : B.Each (supplied data good) root)
    (ha : B.Each (avoiding F) root) : B.Each (followed data σ) root := by
  induction B generalizing root with
  | nil => trivial
  | leaf predicate term rest ih =>
      exact ⟨fun n hn => hs.1 n (hgood _ _ hn), ih hB.2 hs.2 ha.2⟩
  | edge e below rest ihBelow ih =>
      refine ⟨fun n hn => ?_, ihBelow hB.2.1 hs.2.1 ha.2.1, ih hB.2.2 hs.2.2 ha.2.2⟩
      cases ht : σ e.target with
      | some m =>
          obtain hF | ⟨r, h, n', hl, hn', hlead⟩ := hσ.closed e.target m ht
          · exact absurd hF ha.1
          · obtain ⟨rfl, rfl⟩ : root = r ∧ e.hop = h := by
              simpa using Option.some.inj (hB.1.symm.trans hl)
            obtain rfl : n = n' := Option.some.inj (hn.symm.trans hn')
            exact Or.inl ⟨m, rfl, hlead⟩
      | none =>
          have hnone : ∀ m, ¬ data.Leads e.hop n m := fun m hm => by
            have := hσ.saturated hB.1 hn hm
            simp [ht] at this
          cases hopt : e.isOptional with
          | true => exact Or.inr ⟨rfl, rfl, hnone⟩
          | false =>
              obtain ⟨m, hm⟩ := hs.1 hopt n (hgood _ _ hn)
              exact absurd hm (hnone m)
  | alternative isSlot body rest ihBody ih =>
      exact ⟨ihBody hB.1 hs.1 ha.1, ih hB.2 hs.2 ha.2⟩
  | conjunct own body rest ihBody ih =>
      exact ⟨trivial, ihBody hB.2.1 hs.2.1 ha.2.1, ih hB.2.2 hs.2.2 ha.2.2⟩

end Body
end EntityGraph
