import EntityGraph.Proofs.Filter.Paths

/-!
# The elements of a collection

Inside the `EXISTS` of an `any` the lambda variable is reached over the edge of the collection, which is
an edge of the chart there. The solutions of the pattern bind the lambda variable to the elements of the
collection, one by one; if there are none, the edge is left out and the lambda variable is unbound. In
every solution all other variables of the pattern are bound to what their paths lead to.
-/
namespace EntityGraph

open Sparql

def Chart.withLink (chart : Chart) (v r : String) (h : Hop) : Chart :=
  { chart with link := fun u => if u = v then some (r, h) else chart.link u }

theorem Chart.withLink_self (chart : Chart) (v r : String) (h : Hop) :
    (chart.withLink v r h).link v = some (r, h) := if_pos rfl

theorem Chart.withLink_of_ne (chart : Chart) {u v : String} (r : String) (h : Hop) (hne : u ≠ v) :
    (chart.withLink v r h).link u = chart.link u := if_neg hne

theorem Survey.Interprets.complete {schema : Schema} {data : Dataset} {w : Survey} {base : Nat}
    {σ : Assignment} (hσ : w.Interprets schema data base σ) (ho : w.chart.Ordered) :
    w.Interprets schema data base (w.chart.complete data σ) := by
  have hfree : ∀ {v t}, w.chart.complete data σ v = some t → w.chart.link v = none → σ v = some t := by
    intro v t hv hl
    cases h : σ v with
    | some t' => rwa [Chart.complete_of_some h] at hv
    | none => simp [Chart.complete_of_unlinked h hl] at hv
  refine ⟨fun {v t r h} hv hl => ?_, fun hv hl => hσ.kinded (hfree hv hl) hl,
    fun hv hl => hσ.member (hfree hv hl) hl, fun hv hl => hσ.number_lt (hfree hv hl) hl⟩
  obtain ⟨hnone, -⟩ | ⟨r', h', n, hl', hn, hlead⟩ := Chart.closed_complete ho hσ.closed v t hv
  · simp [hl] at hnone
  · obtain ⟨rfl, rfl⟩ : r = r' ∧ h = h' := by simpa using Option.some.inj (hl.symm.trans hl')
    exact ⟨n, hn, hlead⟩

namespace Filter

/-- A pattern at `q` for the elements `l` of a collection of `o`. -/
structure ElementPattern (schema : Schema) (w : Survey) (q : Place)
    (lambda : String → Option (Place × EntityType)) (l o : Place) (hop : Hop) (B : Body) : Prop where
  number_lt : o.number < l.number
  unlinked : w.chart.link l.var = none
  edge : ∃ O t, w.chart.kind o.var = some O ∧ w.chart.kind l.var = some t ∧
    O.HasEdge schema hop (some t)
  laid : B.Each (Body.laid schema w.chart (elementOutlook q lambda l o hop)) q.var
  narrow : B.Narrow
  mem_targets : l.var ∈ B.targets

structure Outside (schema : Schema) (data : Dataset) (w : Survey) (q : Place)
    (lambda : String → Option (Place × EntityType)) (base : Nat) (σ : Assignment) : Prop where
  interprets : w.Interprets schema data base σ
  top : w.chart.link q.var = none
  bound : (σ q.var).isSome
  present : ∀ {name r t}, lambda name = some (r, t) → (σ r.var).isSome

variable {schema : Schema} {data : Dataset} {w : Survey} {q l o : Place}
  {lambda : String → Option (Place × EntityType)} {hop : Hop} {B : Body} {base : Nat} {σ : Assignment}

namespace ElementPattern

theorem ordered (h : ElementPattern schema w q lambda l o hop B) (hw : w.Sound schema) :
    (w.chart.withLink l.var o.var hop).Ordered := by
  intro v r h' hl
  by_cases hv : v = l.var
  · subst hv
    rw [Chart.withLink_self] at hl
    obtain ⟨rfl, rfl⟩ : o.var = r ∧ hop = h' := by simpa using hl
    exact ⟨o.number, l.number, rfl, rfl, h.number_lt⟩
  · exact hw.ordered v r h' ((w.chart.withLink_of_ne _ _ hv).symm.trans hl)

theorem proper (h : ElementPattern schema w q lambda l o hop B) (hw : w.Sound schema) :
    (w.chart.withLink l.var o.var hop).Proper schema where
  ordered := h.ordered hw
  declared hv := hw.declared hv
  edge {v r h'} hl := by
    by_cases hv : v = l.var
    · subst hv
      rw [Chart.withLink_self] at hl
      obtain ⟨rfl, rfl⟩ : o.var = r ∧ hop = h' := by simpa using hl
      obtain ⟨O, t, hO, ht, hedge⟩ := h.edge
      exact ⟨O, hO, by
        change O.HasEdge schema hop (w.chart.kind l.var)
        rwa [ht]⟩
    · exact hw.edge ((w.chart.withLink_of_ne _ _ hv).symm.trans hl)

end ElementPattern

section Solutions

variable (hs : schema.Accepted) (hdata : Conforms schema data) (hw : w.Sound schema)
  (hB : ElementPattern schema w q lambda l o hop B) (hσ : Outside schema data w q lambda base σ)
  (hbase : base ≤ l.number)

include hB hσ hbase

theorem Outside.eq_none : σ l.var = none := by
  by_contra hsome
  obtain ⟨t, ht⟩ := Option.ne_none_iff_exists'.mp hsome
  have hlt := hσ.interprets.number_lt ht hB.unlinked
  rw [Place.var, variableNumber_variableName] at hlt
  exact absurd hbase (not_le.mpr hlt)

theorem Outside.ne_of_free {v : String} (hv : v ∈ w.chart.free σ) : v ≠ l.var := by
  rintro rfl
  have hsome := hv.2
  rw [hσ.eq_none hB hbase] at hsome
  simp at hsome

theorem Outside.closed : (w.chart.withLink l.var o.var hop).Closed data (w.chart.free σ) σ := by
  intro v t hv
  have hne : v ≠ l.var := by
    rintro rfl
    simp [hσ.eq_none hB hbase] at hv
  rw [w.chart.withLink_of_ne _ _ hne]
  exact hσ.interprets.closed v t hv

omit hbase in
theorem Outside.fits : B.Each ((w.chart.withLink l.var o.var hop).fits σ) q.var := by
  refine hB.laid.mono (fun _ _ _ h => h.elim) (fun r e he => ?_) fun r own h => ?_
  · obtain hl | hl := he.1
    · have hne : e.target ≠ l.var := by
        intro heq
        rw [heq, hB.unlinked] at hl
        simp at hl
      exact (w.chart.withLink_of_ne _ _ hne).trans hl
    · change (if e.target = l.var then some (o.var, hop) else none) = some (r, e.hop) at hl
      split at hl
      · next heq =>
          change (w.chart.withLink l.var o.var hop).link e.target = some (r, e.hop)
          rw [heq, Chart.withLink_self, hl]
      · simp at hl
  · obtain h | ⟨-, name, r', t, hlambda, rfl⟩ := h
    · exact Or.inl h
    · exact Or.inr (hσ.present hlambda)

include hw

omit hbase in
theorem Outside.good {τ : Assignment}
    (hτ : (w.chart.withLink l.var o.var hop).Closed data (w.chart.free σ) τ) (hsub : σ.Sub τ) :
    ∀ v t, τ v = some t → w.chart.Good schema data v t := by
  refine hτ.good (hB.ordered hw) (fun v hv t ht T hT => ?_) (hB.proper hw).good_step
  obtain ⟨t', ht'⟩ := Option.isSome_iff_exists.mp hv.2
  obtain rfl : t' = t := Option.some.inj ((hsub v t' ht').symm.trans ht)
  exact hσ.interprets.member ht' hv.1 hT

include hdata

theorem Outside.holds {ρ : Solution} (hρ : ρ ∈ (Pattern.mk q.var B).group.solutions data σ) :
    Pattern.Holds (w.chart.withLink l.var o.var hop) data σ (w.chart.free σ) (w.chart.Good schema data)
      ⟨q.var, B⟩ ρ where
  ordered := hB.ordered hw
  unlinked _ hv := (w.chart.withLink_of_ne _ _ (hσ.ne_of_free hB hbase hv)).trans hv.1
  fits := hσ.fits hB
  supplied := hB.laid.supplied hdata
  anchored := Or.inr hσ.bound
  mem := hρ
  closed := Pattern.closed_of_mem_solutions (hB.ordered hw) (hσ.fits hB) (hσ.closed hB hbase)
    ⟨hσ.top, hσ.bound⟩ hρ
  bound := (Assignment.sub_extend σ ρ).isSome hσ.bound
  good _ hτ hsub := hσ.good hw hB hτ ((Assignment.sub_extend σ ρ).trans hsub)

section Solution

variable {ρ : Solution} (hρ : ρ ∈ (Pattern.mk q.var B).group.solutions data σ)

include hρ

theorem Outside.solution_eq {v : String} (hl : w.chart.link v = none) (hne : v ≠ l.var) :
    σ.extend ρ v = σ v := by
  cases hv : σ v with
  | some t => exact Assignment.sub_extend σ ρ v t hv
  | none =>
      by_contra hsome
      obtain ⟨t, ht⟩ := Option.ne_none_iff_exists'.mp hsome
      obtain hF | ⟨r, h, n, hl', -⟩ := (hσ.holds hdata hw hB hbase hρ).closed v t ht
      · have hbound := hF.2
        simp [hv] at hbound
      · rw [w.chart.withLink_of_ne _ _ hne, hl] at hl'
        simp at hl'

theorem Outside.solution_interprets : w.Interprets schema data (l.number + 1) (σ.extend ρ) := by
  have hholds := hσ.holds hdata hw hB hbase hρ
  obtain ⟨O, t', -, hkind, -⟩ := hB.edge
  refine ⟨fun {v t r h} hv hl => ?_, fun {v t} hv hl => ?_, fun hv _ hT => ?_, fun {v t} hv hl => ?_⟩
  · have hne : v ≠ l.var := by
      rintro rfl
      simp [hB.unlinked] at hl
    obtain hF | ⟨r', h', n, hl', hn, hlead⟩ := hholds.closed v t hv
    · simp [hF.1] at hl
    · rw [w.chart.withLink_of_ne _ _ hne, hl] at hl'
      obtain ⟨rfl, rfl⟩ : r = r' ∧ h = h' := by simpa using hl'
      exact ⟨n, hn, hlead⟩
  · by_cases hne : v = l.var
    · exact ⟨t', hne ▸ hkind⟩
    · rw [hσ.solution_eq hdata hw hB hbase hρ hl hne] at hv
      exact hσ.interprets.kinded hv hl
  · exact hσ.good hw hB hholds.closed (Assignment.sub_extend σ ρ) _ _ hv _ hT
  · by_cases hne : v = l.var
    · rw [hne, Place.var, variableNumber_variableName]
      exact Nat.lt_succ_self _
    · rw [hσ.solution_eq hdata hw hB hbase hρ hl hne] at hv
      exact lt_of_lt_of_le (hσ.interprets.number_lt hv hl) (hbase.trans (Nat.le_succ _))

theorem Outside.solution_taken {v : String} (hv : v ∈ B.targets) :
    (w.chart.withLink l.var o.var hop).SaturatedAt data (σ.extend ρ) v := by
  have hholds := hσ.holds hdata hw hB hbase hρ
  refine hholds.saturatedAt_target (hholds.unlinked q.var ⟨hσ.top, hσ.bound⟩) ?_ hB.narrow hv
  exact hB.laid.mono (fun _ _ _ _ => trivial) (fun _ _ _ => trivial) fun _ _ h => h.imp id And.left

theorem Outside.solution_saturatedAt {v : String} (hv : v ∈ B.targets) :
    w.chart.SaturatedAt data (σ.extend ρ) v := by
  intro r h n m hl
  have hne : v ≠ l.var := by
    rintro rfl
    simp [hB.unlinked] at hl
  exact hσ.solution_taken hdata hw hB hbase hρ hv r h n m ((w.chart.withLink_of_ne _ _ hne).trans hl)

theorem Outside.solution_mem_candidates :
    σ.extend ρ l.var ∈ candidates ((σ.extend ρ o.var).elim [] (data.neighbours hop)) := by
  have hself := w.chart.withLink_self l.var o.var hop
  cases hm : σ.extend ρ l.var with
  | some m =>
      obtain hF | ⟨r, h, n, hl', hn, hlead⟩ := (hσ.holds hdata hw hB hbase hρ).closed l.var m hm
      · exact absurd rfl (hσ.ne_of_free hB hbase hF)
      · obtain ⟨rfl, rfl⟩ : o.var = r ∧ hop = h := by simpa using Option.some.inj (hself.symm.trans hl')
        have hmem : m ∈ data.neighbours hop n := Dataset.mem_neighbours.mpr hlead
        rw [hn, Option.elim_some, candidates, if_neg (by simpa using List.ne_nil_of_mem hmem)]
        exact List.mem_map_of_mem hmem
  | none =>
      have hempty : (σ.extend ρ o.var).elim [] (data.neighbours hop) = [] := by
        cases hn : σ.extend ρ o.var with
        | none => rfl
        | some n =>
            refine List.eq_nil_iff_forall_not_mem.mpr fun m hmem => ?_
            have hsome := hσ.solution_taken hdata hw hB hbase hρ hB.mem_targets _ _ n m hself hn
              (Dataset.mem_neighbours.mp hmem)
            simp [hm] at hsome
      rw [hempty]
      exact List.mem_singleton.mpr rfl

end Solution

theorem Outside.exists_solution {π : Assignment}
    (hπ : (w.chart.withLink l.var o.var hop).Closed data (w.chart.free σ) π) (hsub : σ.Sub π) :
    ∃ ρ ∈ (Pattern.mk q.var B).group.solutions data σ,
      (σ.extend ρ).Sub ((w.chart.withLink l.var o.var hop).complete data π) := by
  have ho := hB.ordered hw
  have hreading := Chart.reading_complete ho hπ
  have hsub' : σ.Sub ((w.chart.withLink l.var o.var hop).complete data π) := hsub.trans Chart.sub_complete
  have havoid : B.Each (Body.avoiding (w.chart.free σ)) q.var := by
    refine (hσ.fits hB).mono (fun _ _ _ _ => trivial) (fun r e he hF => ?_) fun _ _ _ => trivial
    have hlink : (w.chart.withLink l.var o.var hop).link e.target = some (r, e.hop) := he
    rw [w.chart.withLink_of_ne _ _ (hσ.ne_of_free hB hbase hF), hF.1] at hlink
    simp at hlink
  have hf := Body.followed_of_reading hreading (hσ.good hw hB hreading.closed hsub') (hσ.fits hB)
    (hB.laid.supplied hdata) havoid
  obtain ⟨n, hn⟩ := Option.isSome_iff_exists.mp hσ.bound
  obtain ⟨ρ, hρ, hwithin, -⟩ := Pattern.exists_solution_of_binds (p := ⟨q.var, B⟩) ho hsub' (hσ.fits hB) hf
    (hsub' _ n hn) (Or.inr hσ.bound) (.nothing B) (by simp)
  exact ⟨ρ, hρ, hsub'.extend hwithin⟩

theorem Outside.exists_candidate
    (hend : ∀ ρ ∈ (Pattern.mk q.var B).group.solutions data σ,
      σ.extend ρ o.var = w.chart.complete data σ o.var)
    {m : Option Term}
    (hm : m ∈ candidates ((w.chart.complete data σ o.var).elim [] (data.neighbours hop))) :
    ∃ ρ ∈ (Pattern.mk q.var B).group.solutions data σ, σ.extend ρ l.var = m := by
  have hnone : w.chart.complete data σ l.var = none :=
    Chart.complete_of_unlinked (hσ.eq_none hB hbase) hB.unlinked
  have hcandidate : ∀ ρ ∈ (Pattern.mk q.var B).group.solutions data σ, σ.extend ρ l.var ∈
      candidates ((w.chart.complete data σ o.var).elim [] (data.neighbours hop)) := by
    intro ρ hρ
    rw [← hend ρ hρ]
    exact hσ.solution_mem_candidates hdata hw hB hbase hρ
  generalize helements : (w.chart.complete data σ o.var).elim [] (data.neighbours hop) = elements
    at hm hcandidate
  unfold candidates at hm hcandidate
  by_cases hempty : elements.isEmpty
  · rw [if_pos hempty] at hm hcandidate
    obtain ⟨ρ, hρ, -⟩ := hσ.exists_solution hdata hw hB hbase (hσ.closed hB hbase) (Assignment.sub_refl σ)
    refine ⟨ρ, hρ, ?_⟩
    rw [List.mem_singleton.mp (hcandidate ρ hρ), List.mem_singleton.mp hm]
  · rw [if_neg hempty] at hm hcandidate
    obtain ⟨a, ha, rfl⟩ := List.mem_map.mp hm
    obtain ⟨n, hn, hlead⟩ : ∃ n, w.chart.complete data σ o.var = some n ∧ data.Leads hop n a := by
      cases hn : w.chart.complete data σ o.var with
      | none => simp [hn, ← helements] at ha
      | some n =>
          rw [← helements, hn] at ha
          exact ⟨n, rfl, Dataset.mem_neighbours.mp ha⟩
    -- bind the lambda variable to the element, from where all else can be completed
    have hclosed : (w.chart.withLink l.var o.var hop).Closed data (w.chart.free σ)
        (Function.update (w.chart.complete data σ) l.var (some a)) := by
      intro v t hv
      by_cases hne : v = l.var
      · subst hne
        obtain rfl : a = t := by simpa using hv
        refine Or.inr ⟨o.var, hop, n, Chart.withLink_self _ _ _ _, ?_, hlead⟩
        rw [Function.update_of_ne, hn]
        intro heq
        rw [heq, hnone] at hn
        simp at hn
      · rw [Function.update_of_ne hne] at hv
        obtain hF | ⟨r, h, n', hl, hn', hlead'⟩ :=
          Chart.closed_complete hw.ordered hσ.interprets.closed v t hv
        · exact Or.inl hF
        · refine Or.inr ⟨r, h, n', (w.chart.withLink_of_ne _ _ hne).trans hl, ?_, hlead'⟩
          rw [Function.update_of_ne, hn']
          rintro rfl
          simp [hnone] at hn'
    have hsub : σ.Sub (Function.update (w.chart.complete data σ) l.var (some a)) := by
      intro v t hv
      rw [Function.update_of_ne]
      · exact Chart.complete_of_some hv
      · rintro rfl
        simp [hσ.eq_none hB hbase] at hv
    obtain ⟨ρ, hρ, hwithin⟩ := hσ.exists_solution hdata hw hB hbase hclosed hsub
    refine ⟨ρ, hρ, ?_⟩
    obtain ⟨a', -, ha'⟩ := List.mem_map.mp (hcandidate ρ hρ)
    have hbound := hwithin _ _ ha'.symm
    rw [Chart.complete_of_some (t := a) (by simp)] at hbound
    rw [← ha', hbound]

/-- Some solution passes a test of the lambda variable if and only if some candidate does. -/
theorem Outside.any_solutions
    (hend : ∀ ρ ∈ (Pattern.mk q.var B).group.solutions data σ,
      σ.extend ρ o.var = w.chart.complete data σ o.var)
    {found : Solution → Bool} {test : Option Term → Bool}
    (htest : ∀ ρ ∈ (Pattern.mk q.var B).group.solutions data σ, found ρ = test (σ.extend ρ l.var)) :
    ((Pattern.mk q.var B).group.solutions data σ).any found =
      (candidates ((w.chart.complete data σ o.var).elim [] (data.neighbours hop))).any test := by
  rw [Bool.eq_iff_iff, List.any_eq_true, List.any_eq_true]
  constructor
  · rintro ⟨ρ, hρ, htrue⟩
    have hcandidate := hσ.solution_mem_candidates hdata hw hB hbase hρ
    rw [hend ρ hρ] at hcandidate
    exact ⟨_, hcandidate, (htest ρ hρ).symm.trans htrue⟩
  · rintro ⟨m, hm, htrue⟩
    obtain ⟨ρ, hρ, rfl⟩ := hσ.exists_candidate hdata hw hB hbase hend hm
    exact ⟨ρ, hρ, (htest ρ hρ).trans htrue⟩

end Solutions
end Filter
end EntityGraph
