import EntityGraph.Pattern.Hop
import EntityGraph.Proofs.Algebra.Solution
import EntityGraph.Sparql.Group

/-!
# Solutions of a group

A group is evaluated from left to right: a triple and a union are joined to the solutions found
so far, an optional group is left joined. Groups in braces are evaluated on their own. The
variables that an outer solution binds are replaced by their terms everywhere in the group; so
the solutions of a group do not bind them.

The prefixed names of a query stand for terms; which ones is part of the data set.
-/
namespace EntityGraph.Sparql

structure Statement where
  subject : Term
  predicate : Term
  object : Term
  deriving DecidableEq, Repr

/-- Finitely many statements, and what prefixed names stand for. -/
structure Dataset where
  statements : List Statement
  resolve : String → Term

def isVariable (name : String) : Bool := name.toList.head? == some '?'

def Assignment.empty : Assignment := fun _ => none

def Assignment.extend (env : Assignment) (μ : Solution) : Assignment :=
  fun v => (env v).or (μ.get? v)

/-- An assignment that gives at least the terms of another one. -/
def Assignment.Sub (σ τ : Assignment) : Prop :=
  ∀ v t, σ v = some t → τ v = some t

namespace Dataset

variable (data : Dataset)

/-- The term that a name of a pattern stands for: its own, or the one assigned to it. -/
def denotes? (σ : Assignment) (name : String) : Option Term :=
  if isVariable name then σ name else some (data.resolve name)

def bind? (env : Assignment) (name : String) (t : Term) : Option Solution :=
  match data.denotes? env name with
  | some known => if known = t then some [] else none
  | none => some [(name, t)]

def matchStatement? (env : Assignment) (t : Triple) (s : Statement) : Option Solution := do
  let μ ← data.bind? env t.subject s.subject
  let ν ← data.bind? env t.object s.object
  if data.resolve t.predicate = s.predicate ∧ μ.compatible ν then some (μ.merge ν) else none

def matching (env : Assignment) (t : Triple) : List Solution :=
  data.statements.filterMap (data.matchStatement? env t)

/-- Whether an edge leads from one term to another. -/
def Leads (h : Hop) (n m : Term) : Prop :=
  if h.isInverse then ⟨m, data.resolve h.predicate, n⟩ ∈ data.statements
  else ⟨n, data.resolve h.predicate, m⟩ ∈ data.statements

instance (h : Hop) (n m : Term) : Decidable (data.Leads h n m) := by
  unfold Leads
  infer_instance

end Dataset

namespace Group

mutual

/-- The solutions that a group makes of those found before it. -/
def extend (data : Dataset) (env : Assignment) : Group → List Solution → List Solution
  | nil, found => found
  | triple t rest, found => rest.extend data env (join found (data.matching env t))
  | alternatives bodies rest, found =>
    rest.extend data env (join found (unionSolutions data env bodies))
  | optional body rest, found =>
    rest.extend data env (leftJoin found (body.extend data env [[]]))

def unionSolutions (data : Dataset) (env : Assignment) : List Group → List Solution
  | [] => []
  | body :: more => body.extend data env [[]] ++ unionSolutions data env more

end

def solutions (data : Dataset) (env : Assignment) (group : Group) : List Solution :=
  group.extend data env [[]]

end Group

namespace Assignment

@[simp] theorem extend_nil (env : Assignment) : env.extend [] = env := by
  funext v
  simp [extend]

theorem extend_empty (μ : Solution) : empty.extend μ = μ.get? := by
  funext v
  simp [extend, empty]

theorem extend_merge (env : Assignment) (μ ν : Solution) :
    env.extend (μ.merge ν) = (env.extend μ).extend ν := by
  funext v
  simp [extend, Solution.get?_merge, Option.or_assoc]

theorem sub_refl (σ : Assignment) : σ.Sub σ := fun _ _ h => h

theorem Sub.trans {σ τ υ : Assignment} (h : σ.Sub τ) (h' : τ.Sub υ) : σ.Sub υ :=
  fun v t hv => h' v t (h v t hv)

theorem sub_extend (env : Assignment) (μ : Solution) : env.Sub (env.extend μ) := by
  intro v t h
  simp [extend, h]

theorem extend_sub_extend (env : Assignment) {μ ν : Solution} (h : μ.Within ν.get?) :
    (env.extend μ).Sub (env.extend ν) := by
  intro v t hv
  cases he : env v with
  | some a => simpa [extend, he] using hv
  | none =>
      have hμ : μ.get? v = some t := by simpa [extend, he] using hv
      simp [extend, he, h v t hμ]

theorem Sub.extend {env σ : Assignment} {μ : Solution} (h : env.Sub σ) (hμ : μ.Within σ) :
    (env.extend μ).Sub σ := by
  intro v t hv
  cases he : env v with
  | some a => exact h v t (by simpa [Assignment.extend, he] using hv)
  | none => exact hμ v t (by simpa [Assignment.extend, he] using hv)

theorem extend_sub_merge_left (env : Assignment) (μ ν : Solution) :
    (env.extend μ).Sub (env.extend (μ.merge ν)) := by
  rw [extend_merge]
  exact sub_extend _ ν

theorem extend_sub_merge_right (env : Assignment) {μ ν : Solution} (hc : μ.compatible ν = true) :
    (env.extend ν).Sub (env.extend (μ.merge ν)) := by
  intro v t h
  cases he : env v with
  | some a => simpa [extend, he] using h
  | none =>
      have hν : ν.get? v = some t := by simpa [extend, he] using h
      simp [extend, he, Solution.get?_merge_right hc hν]

theorem extend_merge_eq_some {env : Assignment} {μ ν : Solution} {v : String} {t : Term}
    (h : env.extend (μ.merge ν) v = some t) :
    env.extend μ v = some t ∨ env.extend μ v = none ∧ env.extend ν v = some t := by
  rw [extend_merge] at h
  have hor : (env.extend μ v).or (ν.get? v) = some t := h
  cases hμ : env.extend μ v with
  | some a => exact Or.inl (by simpa only [hμ, Option.some_or] using hor)
  | none =>
      have he : env v = none := by
        cases he : env v with
        | none => rfl
        | some a => simp [extend, he] at hμ
      have hν : ν.get? v = some t := by simpa only [hμ, Option.none_or] using hor
      exact Or.inr ⟨rfl, by simp [extend, he, hν]⟩

end Assignment

namespace Dataset

variable {data : Dataset} {env : Assignment}

theorem denotes?_mono {σ τ : Assignment} (h : σ.Sub τ) {name : String} {t : Term}
    (hn : data.denotes? σ name = some t) : data.denotes? τ name = some t := by
  unfold denotes? at hn ⊢
  split at hn
  · next hv => rw [if_pos hv]; exact h _ _ hn
  · next hv => rw [if_neg hv]; exact hn

theorem bind?_spec {name : String} {t : Term} {μ : Solution} (h : data.bind? env name t = some μ) :
    data.denotes? (env.extend μ) name = some t ∧
      ∀ v a, μ.get? v = some a → v = name ∧ a = t ∧ isVariable name = true := by
  unfold bind? at h
  cases hd : data.denotes? env name with
  | some known =>
      rw [hd] at h
      by_cases hk : known = t
      · obtain rfl : [] = μ := by simpa [hk] using h
        refine ⟨?_, by simp⟩
        rw [Assignment.extend_nil, hd, hk]
      · simp [hk] at h
  | none =>
      rw [hd] at h
      obtain rfl : [(name, t)] = μ := by simpa using h
      have hvar : isVariable name = true := by
        by_contra hv
        simp [denotes?, hv] at hd
      have hnone : env name = none := by simpa [denotes?, hvar] using hd
      constructor
      · simp [denotes?, hvar, Assignment.extend, hnone, Solution.get?_cons]
      · intro v a ha
        rw [Solution.get?_cons] at ha
        by_cases hv : v = name
        · rw [if_pos hv, Option.some.injEq] at ha
          exact ⟨hv, ha.symm, hvar⟩
        · simp [hv] at ha

theorem bind?_exists {σ : Assignment} (hσ : env.Sub σ) {name : String} {t : Term}
    (h : data.denotes? σ name = some t) : ∃ μ, data.bind? env name t = some μ ∧ μ.Within σ := by
  unfold bind?
  cases hd : data.denotes? env name with
  | some known =>
      have hk : known = t := Option.some.inj ((denotes?_mono hσ hd).symm.trans h)
      exact ⟨[], by simp [hk], Solution.within_nil σ⟩
  | none =>
      refine ⟨[(name, t)], rfl, ?_⟩
      have hvar : isVariable name = true := by
        by_contra hv
        simp [denotes?, hv] at hd
      intro v a ha
      rw [Solution.get?_cons] at ha
      by_cases hv : v = name
      · rw [if_pos hv, Option.some.injEq] at ha
        rw [hv, ← ha]
        simpa [denotes?, hvar] using h
      · simp [hv] at ha

theorem mem_matching {t : Triple} {ρ : Solution} (h : ρ ∈ data.matching env t) :
    ∃ a b, ⟨a, data.resolve t.predicate, b⟩ ∈ data.statements ∧
      data.denotes? (env.extend ρ) t.subject = some a ∧
      data.denotes? (env.extend ρ) t.object = some b ∧
      ∀ v c, ρ.get? v = some c → isVariable v = true ∧ (v = t.subject ∨ v = t.object) := by
  obtain ⟨s, hs, hm⟩ := List.mem_filterMap.mp h
  simp only [matchStatement?, Option.bind_eq_bind, Option.bind_eq_some_iff] at hm
  obtain ⟨μ, hμ, ν, hν, hρ⟩ := hm
  split at hρ
  · next hc =>
      obtain rfl : μ.merge ν = ρ := by simpa using hρ
      obtain ⟨hsub, hdomμ⟩ := bind?_spec hμ
      obtain ⟨hobj, hdomν⟩ := bind?_spec hν
      refine ⟨s.subject, s.object, by rw [hc.1]; exact hs, ?_, ?_, ?_⟩
      · exact denotes?_mono (Assignment.extend_sub_merge_left env μ ν) hsub
      · exact denotes?_mono (Assignment.extend_sub_merge_right env hc.2) hobj
      · intro v c hv
        rw [Solution.get?_merge] at hv
        cases hμv : μ.get? v with
        | some a =>
            obtain ⟨rfl, -, hvar⟩ := hdomμ v a hμv
            exact ⟨hvar, Or.inl rfl⟩
        | none =>
            obtain ⟨rfl, -, hvar⟩ := hdomν v c (by simpa [hμv] using hv)
            exact ⟨hvar, Or.inr rfl⟩
  · simp at hρ

theorem exists_matching {σ : Assignment} (hσ : env.Sub σ) {t : Triple} {a b : Term}
    (hs : ⟨a, data.resolve t.predicate, b⟩ ∈ data.statements)
    (ha : data.denotes? σ t.subject = some a) (hb : data.denotes? σ t.object = some b) :
    ∃ ρ ∈ data.matching env t, ρ.Within σ ∧ data.denotes? (env.extend ρ) t.subject = some a ∧
      data.denotes? (env.extend ρ) t.object = some b := by
  obtain ⟨μ, hμ, hμσ⟩ := bind?_exists hσ ha
  obtain ⟨ν, hν, hνσ⟩ := bind?_exists hσ hb
  have hc := hμσ.compatible hνσ
  refine ⟨μ.merge ν, List.mem_filterMap.mpr ⟨_, hs, ?_⟩, hμσ.merge hνσ, ?_, ?_⟩
  · simp [matchStatement?, hμ, hν, hc]
  · exact denotes?_mono (Assignment.extend_sub_merge_left env μ ν) (bind?_spec hμ).1
  · exact denotes?_mono (Assignment.extend_sub_merge_right env hc) (bind?_spec hν).1

end Dataset

namespace Group

variable {data : Dataset} {env : Assignment}

@[elab_as_elim] theorem sequence_induction {motive : Group → Prop} (nil : motive nil)
    (triple : ∀ t rest, motive rest → motive (triple t rest))
    (alternatives : ∀ bodies rest, motive rest → motive (alternatives bodies rest))
    (optional : ∀ body rest, motive rest → motive (optional body rest)) : ∀ G, motive G
  | .nil => nil
  | .triple t rest =>
    triple t rest (sequence_induction nil triple alternatives optional rest)
  | .alternatives bodies rest =>
    alternatives bodies rest (sequence_induction nil triple alternatives optional rest)
  | .optional body rest =>
    optional body rest (sequence_induction nil triple alternatives optional rest)

theorem append_assoc (G H K : Group) : (G.append H).append K = G.append (H.append K) := by
  induction G using sequence_induction with
  | nil => rfl
  | triple t rest ih => simp [append, ih]
  | alternatives bodies rest ih => simp [append, ih]
  | optional body rest ih => simp [append, ih]

theorem extend_append (G H : Group) (found : List Solution) :
    (G.append H).extend data env found = H.extend data env (G.extend data env found) := by
  induction G using sequence_induction generalizing found with
  | nil => rfl
  | triple t rest ih => exact ih _
  | alternatives bodies rest ih => exact ih _
  | optional body rest ih => exact ih _

theorem mem_unionSolutions {bodies : List Group} {ν : Solution} :
    ν ∈ unionSolutions data env bodies ↔ ∃ body ∈ bodies, ν ∈ body.solutions data env := by
  induction bodies with
  | nil => simp [unionSolutions]
  | cons body more ih => simp [unionSolutions, ih, solutions]

theorem exists_within_of_mem_extend {G : Group} {found : List Solution} {ρ : Solution}
    (h : ρ ∈ G.extend data env found) : ∃ μ ∈ found, μ.Within ρ.get? := by
  induction G using sequence_induction generalizing found with
  | nil => exact ⟨ρ, h, fun _ _ => id⟩
  | triple t rest ih =>
      obtain ⟨ρ', hρ', hw⟩ := ih h
      obtain ⟨μ, hμ, ν, -, -, rfl⟩ := mem_join.mp hρ'
      exact ⟨μ, hμ, hw.of_merge_left⟩
  | alternatives bodies rest ih =>
      obtain ⟨ρ', hρ', hw⟩ := ih h
      obtain ⟨μ, hμ, ν, -, -, rfl⟩ := mem_join.mp hρ'
      exact ⟨μ, hμ, hw.of_merge_left⟩
  | optional body rest ih =>
      obtain ⟨ρ', hρ', hw⟩ := ih h
      obtain ⟨μ, hμ, ν, -, -, rfl⟩ | ⟨hμ, -⟩ := mem_leftJoin.mp hρ'
      · exact ⟨μ, hμ, hw.of_merge_left⟩
      · exact ⟨ρ', hμ, hw⟩

theorem exists_sub_of_mem_extend {G : Group} {found : List Solution} {ρ : Solution}
    (h : ρ ∈ G.extend data env found) :
    ∃ μ ∈ found, (env.extend μ).Sub (env.extend ρ) := by
  obtain ⟨μ, hμ, hw⟩ := exists_within_of_mem_extend h
  exact ⟨μ, hμ, Assignment.extend_sub_extend env hw⟩

/-- A solution does not bind what is bound outside. -/
def Apart (env : Assignment) (μ : Solution) : Prop :=
  ∀ v t, μ.get? v = some t → env v = none

theorem Apart.merge {μ ν : Solution} (hμ : Apart env μ) (hν : Apart env ν) :
    Apart env (μ.merge ν) := by
  intro v t h
  rw [Solution.get?_merge] at h
  cases hv : μ.get? v with
  | some a => exact hμ v a hv
  | none => exact hν v t (by simpa [hv] using h)

theorem apart_bind? {name : String} {t : Term} {μ : Solution}
    (h : data.bind? env name t = some μ) : Apart env μ := by
  intro v a ha
  obtain ⟨rfl, -, hvar⟩ := (Dataset.bind?_spec h).2 v a ha
  cases he : env v with
  | none => rfl
  | some b =>
      have hd : data.denotes? env v = some b := by simp [Dataset.denotes?, hvar, he]
      rw [Dataset.bind?, hd] at h
      split at h <;> simp_all

theorem apart_matching {t : Triple} {μ : Solution} (h : μ ∈ data.matching env t) : Apart env μ := by
  obtain ⟨s, -, hm⟩ := List.mem_filterMap.mp h
  simp only [Dataset.matchStatement?, Option.bind_eq_bind, Option.bind_eq_some_iff] at hm
  obtain ⟨κ, hκ, ν, hν, hμ⟩ := hm
  split at hμ
  · obtain rfl : κ.merge ν = μ := by simpa using hμ
    exact (apart_bind? hκ).merge (apart_bind? hν)
  · simp at hμ

theorem apart_join {left right : List Solution} (hl : ∀ μ ∈ left, Apart env μ)
    (hr : ∀ μ ∈ right, Apart env μ) : ∀ ρ ∈ join left right, Apart env ρ := by
  intro ρ hρ
  obtain ⟨μ, hμ, ν, hν, -, rfl⟩ := mem_join.mp hρ
  exact (hl μ hμ).merge (hr ν hν)

mutual

theorem apart_extend : ∀ (G : Group) (found : List Solution), (∀ μ ∈ found, Apart env μ) →
    ∀ ρ ∈ G.extend data env found, Apart env ρ
  | .nil, _, h => h
  | .triple _ rest, _, h => apart_extend rest _ (apart_join h fun _ => apart_matching)
  | .alternatives bodies rest, _, h => apart_extend rest _ (apart_join h (apart_union bodies))
  | .optional body rest, found, h => by
    refine apart_extend rest _ fun ρ hρ => ?_
    obtain ⟨μ, hμ, ν, hν, -, rfl⟩ | ⟨hρ, -⟩ := mem_leftJoin.mp hρ
    · exact (h μ hμ).merge (apart_extend body _ (by simp [Apart]) ν hν)
    · exact h ρ hρ

theorem apart_union : ∀ (bodies : List Group), ∀ ρ ∈ unionSolutions data env bodies, Apart env ρ
  | [], ρ, hρ => by simp [unionSolutions] at hρ
  | body :: more, ρ, hρ => by
    obtain hρ | hρ := List.mem_append.mp hρ
    · exact apart_extend body _ (by simp [Apart]) ρ hρ
    · exact apart_union more ρ hρ

end

theorem apart_of_mem_solutions {G : Group} {ρ : Solution} (h : ρ ∈ G.solutions data env) :
    Apart env ρ :=
  apart_extend G _ (by simp [Apart]) ρ h

/-- A solution lies within every assignment that gives at least what it gives on top of what is bound
outside. -/
theorem within_of_mem_solutions {G : Group} {ρ : Solution} (h : ρ ∈ G.solutions data env)
    {σ : Assignment} (hσ : (env.extend ρ).Sub σ) : ρ.Within σ := by
  intro v t hv
  have hnone := apart_of_mem_solutions h v t hv
  exact hσ v t (by simp [Assignment.extend, hnone, hv])

end Group
end EntityGraph.Sparql
