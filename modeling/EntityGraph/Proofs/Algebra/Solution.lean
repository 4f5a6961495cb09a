import EntityGraph.Results.Row
import Mathlib.Tactic.Common

/-!
# Solutions

A solution binds some variables to terms. Two solutions are compatible when they agree on every
variable that both of them bind; the algebra of queries puts compatible solutions together. A
left join keeps a solution that is compatible with none of the others as it is.

Solutions are kept as lists, with repetitions, in the order in which they are found. What is
proved of them concerns only which terms they bind and which solutions there are.
-/
namespace EntityGraph.Sparql

inductive Term where
  | iri (text : String)
  | blank (label : String)
  | literal (text datatype : String) (language : Option String)
  deriving DecidableEq, Repr, Inhabited

def Term.text : Term → String
  | iri text => text
  | blank label => label
  | literal text _ _ => text

def Term.binding : Term → Binding
  | iri text => { value := text, kind := some "uri" }
  | blank label => { value := label, kind := some "bnode" }
  | literal text datatype none =>
    { value := text, kind := some "literal", datatype := some datatype }
  | literal text _ (some language) =>
    { value := text, kind := some "literal", language := some language }

@[simp] theorem Term.binding_value (t : Term) : t.binding.value = t.text := by
  cases t with
  | iri text => rfl
  | blank label => rfl
  | literal text datatype language => cases language <;> rfl

/-- Terms for some of the variables. -/
abbrev Assignment := String → Option Term

abbrev Solution := List (String × Term)

namespace Solution

def get? (μ : Solution) : Assignment := fun v => μ.lookup v

def agreesAt (μ ν : Solution) (v : String) : Bool :=
  match μ.get? v, ν.get? v with
  | some a, some b => a == b
  | _, _ => true

def compatible (μ ν : Solution) : Bool :=
  ν.all fun (v, _) => μ.agreesAt ν v

def merge (μ ν : Solution) : Solution :=
  μ ++ ν.filter fun (v, _) => (μ.get? v).isNone

@[simp] theorem get?_nil (v : String) : get? [] v = none := rfl

theorem get?_cons (w : String) (t : Term) (μ : Solution) (v : String) :
    get? ((w, t) :: μ) v = if v = w then some t else μ.get? v := by
  unfold get?
  by_cases h : v = w
  · rw [if_pos h, h, List.lookup_cons_self]
  · have hbeq : (v == w) = false := by simpa using h
    rw [if_neg h, List.lookup_cons, hbeq]

theorem get?_filter_of (keep : String → Bool) (ν : Solution) {v : String} (hv : keep v = true) :
    get? (ν.filter fun (w, _) => keep w) v = ν.get? v := by
  induction ν with
  | nil => rfl
  | cons entry rest ih =>
      obtain ⟨w, t⟩ := entry
      by_cases hw : keep w
      · rw [List.filter_cons_of_pos (by simpa using hw), get?_cons, get?_cons, ih]
      · have hne : v ≠ w := by
          rintro rfl
          exact hw hv
        rw [List.filter_cons_of_neg (by simpa using hw), get?_cons, if_neg hne, ih]

theorem get?_merge (μ ν : Solution) (v : String) :
    (μ.merge ν).get? v = (μ.get? v).or (ν.get? v) := by
  have happend : (μ.merge ν).get? v =
      (μ.get? v).or (get? (ν.filter fun (w, _) => (μ.get? w).isNone) v) := by
    simp [merge, get?, List.lookup_append]
  cases h : μ.get? v with
  | some t => rw [happend, h, Option.some_or, Option.some_or]
  | none =>
      rw [happend, get?_filter_of (fun w => (μ.get? w).isNone) ν (by simp [h]), h]

theorem exists_mem_of_get? {μ : Solution} {v : String} {t : Term} (h : μ.get? v = some t) :
    (v, t) ∈ μ := by
  induction μ with
  | nil => simp at h
  | cons entry rest ih =>
      obtain ⟨w, s⟩ := entry
      rw [get?_cons] at h
      by_cases hv : v = w
      · rw [if_pos hv, Option.some.injEq] at h
        simp [hv, h]
      · rw [if_neg hv] at h
        exact List.mem_cons_of_mem _ (ih h)

theorem compatible_iff (μ ν : Solution) :
    μ.compatible ν = true ↔ ∀ v a b, μ.get? v = some a → ν.get? v = some b → a = b := by
  constructor
  · intro h v a b ha hb
    have hv := List.all_eq_true.mp h _ (exists_mem_of_get? hb)
    simpa [agreesAt, ha, hb] using hv
  · intro h
    refine List.all_eq_true.mpr fun entry _ => ?_
    cases ha : μ.get? entry.1 with
    | none => simp [agreesAt, ha]
    | some a =>
        cases hb : ν.get? entry.1 with
        | none => simp [agreesAt, hb]
        | some b => simp [agreesAt, ha, hb, h _ a b ha hb]

/-- A solution lies within an assignment that gives its variables the same terms. -/
def Within (μ : Solution) (σ : Assignment) : Prop :=
  ∀ v t, μ.get? v = some t → σ v = some t

theorem within_nil (σ : Assignment) : Within [] σ := by
  intro v t h
  simp at h

theorem Within.compatible {μ ν : Solution} {σ : Assignment} (hμ : μ.Within σ) (hν : ν.Within σ) :
    μ.compatible ν = true := by
  rw [compatible_iff]
  intro v a b ha hb
  have hab := (hμ v a ha).symm.trans (hν v b hb)
  exact Option.some.inj hab

theorem Within.merge {μ ν : Solution} {σ : Assignment} (hμ : μ.Within σ) (hν : ν.Within σ) :
    (μ.merge ν).Within σ := by
  intro v t h
  rw [get?_merge] at h
  cases hv : μ.get? v with
  | some a => exact hμ v t (by simpa [hv] using h)
  | none => exact hν v t (by simpa [hv] using h)

theorem get?_merge_left {μ : Solution} (ν : Solution) {v : String} {t : Term}
    (h : μ.get? v = some t) : (μ.merge ν).get? v = some t := by
  rw [get?_merge, h, Option.some_or]

theorem get?_merge_right {μ ν : Solution} (hc : μ.compatible ν = true) {v : String} {t : Term}
    (h : ν.get? v = some t) : (μ.merge ν).get? v = some t := by
  rw [get?_merge]
  cases hv : μ.get? v with
  | none => exact h
  | some a => rw [(compatible_iff μ ν).mp hc v a t hv h, Option.some_or]

theorem Within.of_merge_left {μ ν : Solution} {σ : Assignment} (h : (μ.merge ν).Within σ) :
    μ.Within σ :=
  fun v t hv => h v t (get?_merge_left ν hv)

theorem Within.of_merge_right {μ ν : Solution} {σ : Assignment} (hc : μ.compatible ν = true)
    (h : (μ.merge ν).Within σ) : ν.Within σ :=
  fun v t hv => h v t (get?_merge_right hc hv)

end Solution

/-- All combinations of compatible solutions. -/
def join (left right : List Solution) : List Solution :=
  left.flatMap fun μ => (right.filter μ.compatible).map μ.merge

/-- All combinations of compatible solutions, and the solutions on the left that have none. -/
def leftJoin (left right : List Solution) : List Solution :=
  left.flatMap fun μ =>
    if (right.filter μ.compatible).isEmpty then [μ] else (right.filter μ.compatible).map μ.merge

theorem mem_join {left right : List Solution} {ρ : Solution} :
    ρ ∈ join left right ↔
      ∃ μ ∈ left, ∃ ν ∈ right, μ.compatible ν = true ∧ ρ = μ.merge ν := by
  simp only [join, List.mem_flatMap, List.mem_map, List.mem_filter]
  constructor
  · rintro ⟨μ, hμ, ν, ⟨hν, hc⟩, rfl⟩
    exact ⟨μ, hμ, ν, hν, hc, rfl⟩
  · rintro ⟨μ, hμ, ν, hν, hc, rfl⟩
    exact ⟨μ, hμ, ν, ⟨hν, hc⟩, rfl⟩

theorem mem_leftJoin {left right : List Solution} {ρ : Solution} :
    ρ ∈ leftJoin left right ↔
      (∃ μ ∈ left, ∃ ν ∈ right, μ.compatible ν = true ∧ ρ = μ.merge ν) ∨
        (ρ ∈ left ∧ ∀ ν ∈ right, ρ.compatible ν = false) := by
  simp only [leftJoin, List.mem_flatMap]
  constructor
  · rintro ⟨μ, hμ, hρ⟩
    by_cases he : (right.filter μ.compatible).isEmpty
    · rw [if_pos he, List.mem_singleton] at hρ
      subst hρ
      refine Or.inr ⟨hμ, fun ν hν => ?_⟩
      have hnil := List.isEmpty_iff.mp he
      simpa using List.filter_eq_nil_iff.mp hnil ν hν
    · rw [if_neg he] at hρ
      obtain ⟨ν, hν, rfl⟩ := List.mem_map.mp hρ
      exact Or.inl ⟨μ, hμ, ν, (List.mem_filter.mp hν).1, (List.mem_filter.mp hν).2, rfl⟩
  · rintro (⟨μ, hμ, ν, hν, hc, rfl⟩ | ⟨hρ, hnone⟩)
    · refine ⟨μ, hμ, ?_⟩
      have hmem : ν ∈ right.filter μ.compatible := List.mem_filter.mpr ⟨hν, hc⟩
      rw [if_neg (by
        intro he
        rw [List.isEmpty_iff.mp he] at hmem
        simp at hmem)]
      exact List.mem_map_of_mem hmem
    · refine ⟨ρ, hρ, ?_⟩
      rw [if_pos (by
        rw [List.isEmpty_iff, List.filter_eq_nil_iff]
        intro ν hν
        simp [hnone ν hν])]
      exact List.mem_singleton.mpr rfl

end EntityGraph.Sparql

namespace EntityGraph

open Sparql (Solution)

/-- The row that reports a solution. -/
def Row.ofSolution (μ : Solution) : Row :=
  μ.map fun (v, t) => (String.ofList (v.toList.dropWhile (· = '?')), t.binding)

end EntityGraph
