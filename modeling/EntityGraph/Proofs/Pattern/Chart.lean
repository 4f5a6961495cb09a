import EntityGraph.Pattern.Group
import EntityGraph.Proofs.Naming.Variable
import EntityGraph.Proofs.Pattern.Parts
import EntityGraph.Schema.Basic
import Mathlib.Data.Set.Insert

/-!
# Charts of variables

A chart says of the variables of a query over which edge each one is reached, and from which other
variable; of a variable that stands for an entity it also says the entity's type. A pattern fits a
chart when every edge of it is the edge that the chart has for its target. An assignment is closed
when every variable that it binds is reached over the edge of the chart from a variable that it
binds, but for some given variables.
-/
namespace EntityGraph

open Sparql

/-- The edge over which a variable is reached, and the types of entities. -/
structure Chart where
  link : String → Option (String × Hop)
  kind : String → Option EntityType

namespace Chart

variable (chart : Chart)

/-- Variables are reached from variables with smaller numbers. -/
def Ordered : Prop :=
  ∀ v r h, chart.link v = some (r, h) → ∃ i k, r = variableName i ∧ v = variableName k ∧ i < k

/-- Every bound variable that is not in `F` is reached from a bound variable. -/
def Closed (data : Dataset) (F : Set String) (σ : Assignment) : Prop :=
  ∀ v t, σ v = some t →
    v ∈ F ∨ ∃ r h n, chart.link v = some (r, h) ∧ σ r = some n ∧ data.Leads h n t

/-- What a pattern has to satisfy for its edges to be those of the chart. A conjunct hangs at the
root of the pattern or at a variable that is bound outside. -/
def fits (env : Assignment) : Body.Condition where
  leaf root _ term := isVariable root = true ∧ isVariable term = false
  edge root e := chart.link e.target = some (root, e.hop)
  conjunct root own := own = root ∨ (env own).isSome

/-- A triple of a pattern that fits, with the root it hangs at. -/
inductive Start : Triple → String → Prop
  | leaf {root predicate term : String} (hr : isVariable root = true)
      (ht : isVariable term = false) : Start ⟨root, predicate, term⟩ root
  | edge {root : String} {e : Edge} (h : chart.link e.target = some (root, e.hop)) :
      Start (e.triple root) root

variable {chart} {data : Dataset} {F : Set String}

theorem Closed.mono {F' : Set String} {σ : Assignment} (h : chart.Closed data F σ) (hF : F ⊆ F') :
    chart.Closed data F' σ :=
  fun v t hv => (h v t hv).imp (fun hv => hF hv) id

theorem Ordered.isVariable_link (ho : chart.Ordered) {v r : String} {h : Hop}
    (hl : chart.link v = some (r, h)) : isVariable v = true ∧ isVariable r = true := by
  obtain ⟨i, k, rfl, rfl, -⟩ := ho v r h hl
  exact ⟨isVariable_variableName k, isVariable_variableName i⟩

end Chart

namespace Sparql.Dataset

variable {data : Dataset} {env : Assignment}

theorem denotes?_of_isVariable {σ : Assignment} {v : String} (hv : isVariable v = true) :
    data.denotes? σ v = σ v := by
  simp [denotes?, hv]

theorem denotes?_of_not_isVariable {σ : Assignment} {v : String} (hv : isVariable v = false) :
    data.denotes? σ v = some (data.resolve v) := by
  simp [denotes?, hv]

theorem mem_matching_edge {root : String} {e : Edge} (hr : isVariable root = true)
    (ht : isVariable e.target = true) {ρ : Solution} (h : ρ ∈ data.matching env (e.triple root)) :
    ∃ n m, env.extend ρ root = some n ∧ env.extend ρ e.target = some m ∧ data.Leads e.hop n m ∧
      ∀ v t, ρ.get? v = some t → v = root ∨ v = e.target := by
  obtain ⟨a, b, hs, ha, hb, hdom⟩ := mem_matching h
  unfold Edge.triple at hs ha hb hdom
  cases hi : e.hop.isInverse with
  | true =>
      simp only [hi, if_true] at hs ha hb hdom
      rw [denotes?_of_isVariable ht] at ha
      rw [denotes?_of_isVariable hr] at hb
      exact ⟨b, a, hb, ha, by simpa [Dataset.Leads, hi] using hs, fun v t hv => (hdom v t hv).2.symm⟩
  | false =>
      simp only [hi, Bool.false_eq_true, if_false] at hs ha hb hdom
      rw [denotes?_of_isVariable hr] at ha
      rw [denotes?_of_isVariable ht] at hb
      exact ⟨a, b, ha, hb, by simpa [Dataset.Leads, hi] using hs, fun v t hv => (hdom v t hv).2⟩

theorem exists_matching_edge {σ : Assignment} (hσ : env.Sub σ) {root : String} {e : Edge}
    (hr : isVariable root = true) (ht : isVariable e.target = true) {n m : Term}
    (hn : σ root = some n) (hm : σ e.target = some m) (he : data.Leads e.hop n m) :
    ∃ ρ ∈ data.matching env (e.triple root), ρ.Within σ ∧ (env.extend ρ root).isSome ∧
      (env.extend ρ e.target).isSome := by
  unfold Edge.triple
  cases hi : e.hop.isInverse with
  | true =>
      obtain ⟨ρ, hρ, hw, ha, hb⟩ := exists_matching hσ
        (t := ⟨e.target, e.hop.predicate, root⟩) (by simpa [Dataset.Leads, hi] using he)
        ((denotes?_of_isVariable ht).trans hm) ((denotes?_of_isVariable hr).trans hn)
      rw [denotes?_of_isVariable ht] at ha
      rw [denotes?_of_isVariable hr] at hb
      exact ⟨ρ, by simpa using hρ, hw, by simp [hb], by simp [ha]⟩
  | false =>
      obtain ⟨ρ, hρ, hw, ha, hb⟩ := exists_matching hσ
        (t := ⟨root, e.hop.predicate, e.target⟩) (by simpa [Dataset.Leads, hi] using he)
        ((denotes?_of_isVariable hr).trans hn) ((denotes?_of_isVariable ht).trans hm)
      rw [denotes?_of_isVariable hr] at ha
      rw [denotes?_of_isVariable ht] at hb
      exact ⟨ρ, by simpa using hρ, hw, by simp [ha], by simp [hb]⟩

end Sparql.Dataset

namespace Body

variable {chart : Chart} {env : Assignment}

theorem start_of_firstLeaf? {B : Body} {root : String} {a : Triple}
    (hB : B.Each (chart.fits env) root) (h : B.firstLeaf? root = some a) : chart.Start a root := by
  induction B with
  | nil => simp [firstLeaf?] at h
  | leaf predicate term rest ih =>
      obtain rfl : (⟨root, predicate, term⟩ : Triple) = a := by simpa [firstLeaf?] using h
      exact .leaf hB.1.1 hB.1.2
  | edge e below rest _ ih => exact ih hB.2.2 h
  | alternative isSlot body rest _ ih => exact ih hB.2 h
  | conjunct own body rest _ ih => exact ih hB.2.2 h

theorem start_of_firstPlainEdge? {B : Body} {root : String} {a : Triple}
    (hB : B.Each (chart.fits env) root) (h : B.firstPlainEdge? root = some a) :
    chart.Start a root := by
  induction B with
  | nil => simp [firstPlainEdge?] at h
  | leaf predicate term rest ih => exact ih hB.2 h
  | edge e below rest _ ih =>
      unfold firstPlainEdge? at h
      split at h
      · exact ih hB.2.2 h
      · obtain rfl : e.triple root = a := by simpa using h
        exact .edge hB.1
  | alternative isSlot body rest _ ih => exact ih hB.2 h
  | conjunct own body rest _ ih => exact ih hB.2.2 h

theorem start_of_ownAnchor? {B : Body} {root : String} {a : Triple}
    (hB : B.Each (chart.fits env) root) (h : B.ownAnchor? root = some a) : chart.Start a root := by
  unfold ownAnchor? at h
  cases hl : B.firstLeaf? root with
  | some a' =>
      rw [hl, Option.some_or] at h
      exact start_of_firstLeaf? hB (hl.trans h)
  | none =>
      rw [hl, Option.none_or] at h
      exact start_of_firstPlainEdge? hB h

end Body
end EntityGraph
