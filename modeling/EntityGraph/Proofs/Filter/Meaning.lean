import EntityGraph.Proofs.Filter.Elements

/-!
# What the clause of a filter means

The clause that a filter is compiled to has the value of the filter, under every interpretation that
binds the entity, binds the lambda variables as the setting says, and takes the edges to all variables
that the clause depends on. Inside an `EXISTS` the solutions of the pattern are such interpretations.
-/
namespace EntityGraph.Filter

open Sparql

variable {schema : Schema} {data : Dataset} {w : Survey} {q : Place} {T : EntityType} {base : Nat}
  {lambda : String → Option (Place × EntityType)} {f : Filter} {c : Clause} {b : Bool} {vs : List String}
  {σ : Assignment}

theorem startOf_present {path rest : List String} {s : Place} {S : EntityType} {used : List String}
    (h : startOf lambda q T path = (s, S, rest)) (hused : ∀ name ∈ path.take 1, name ∈ used)
    (hq : (σ q.var).isSome)
    (hpresent : ∀ {name r t}, among used lambda name = some (r, t) → (σ r.var).isSome) :
    (σ s.var).isSome := by
  cases path with
  | nil =>
      obtain ⟨rfl, -, -⟩ : q = s ∧ T = S ∧ [] = rest := by simpa [startOf] using h
      exact hq
  | cons first more =>
      cases hlambda : lambda first with
      | none =>
          obtain ⟨rfl, -, -⟩ : q = s ∧ T = S ∧ first :: more = rest := by
            simpa [startOf, hlambda] using h
          exact hq
      | some found =>
          obtain ⟨rfl, -, -⟩ : found.1 = s ∧ found.2 = S ∧ more = rest := by
            simpa [startOf, hlambda] using h
          exact hpresent (among_eq_some.mpr ⟨hused first (by simp), hlambda⟩)

theorem settingOf_update {l : Place} {t : EntityType} {τ : Assignment} {x : String}
    (hsame : ∀ {name r t}, lambda name = some (r, t) → τ r.var = σ r.var) :
    settingOf (Function.update lambda x (some (l, t))) τ =
      Function.update (settingOf lambda σ) x (some ⟨t, τ l.var, false⟩) := by
  funext name
  by_cases hname : name = x
  · subst hname
    simp [settingOf]
  · rw [Function.update_of_ne hname]
    unfold settingOf
    rw [Function.update_of_ne hname]
    cases hlambda : lambda name with
    | none => rfl
    | some found => simp [hsame hlambda]

theorem Renders.isVar_eq (h : Renders schema w q T base lambda f c b vs) : c.isVar = f.isVariable := by
  induction h with
  | parentheses _ ih => exact ih
  | @eq base lambda f g c d b b' vs us hf hg ihf ihg =>
      unfold Clause.nullSafeEqual
      split <;> rfl
  | _ => rfl

section Comparison

variable {ops : Operators}

theorem value_equal (c d : Clause) : (Clause.equal c d).value ops data σ =
    equality ops false (c.value ops data σ) (d.value ops data σ) := by
  rw [Clause.value]
  cases c.value ops data σ with
  | none => cases d.value ops data σ <;> rfl
  | some a => cases d.value ops data σ <;> rfl

theorem value_equal_or_unbound (u v : String) :
    (Clause.or (.equal (.var u) (.var v)) (.not (.or (.bound u) (.bound v)))).value ops data σ =
      equality ops true (σ u) (σ v) := by
  rw [Clause.value, value_equal]
  simp only [Clause.value, Option.bind_some, ops.truth_ofBool]
  cases hu : σ u with
  | none => cases hv : σ v <;> simp [equality, disjunction, ops.truth_ofBool]
  | some a =>
      cases hv : σ v with
      | none => simp [equality, disjunction, ops.truth_ofBool]
      | some b =>
          cases hequal : ops.equal a b with
          | none => simp [equality, disjunction, ops.truth_ofBool, hequal]
          | some truth => cases truth <;> simp [equality, disjunction, ops.truth_ofBool, hequal]

theorem value_nullSafeEqual (c d : Clause) (mayBeUnbound : Bool) :
    (Clause.nullSafeEqual c d mayBeUnbound).value ops data σ =
      equality ops (c.isVar && d.isVar && mayBeUnbound) (c.value ops data σ) (d.value ops data σ) := by
  unfold Clause.nullSafeEqual
  split
  · exact value_equal_or_unbound _ _
  · next hother =>
      have hfalse : (c.isVar && d.isVar && mayBeUnbound) = false := by
        cases c with
        | var u =>
            cases d with
            | var v =>
                cases mayBeUnbound with
                | true => exact absurd rfl (hother u v rfl rfl)
                | false => rfl
            | _ => rfl
        | _ => rfl
      rw [hfalse, value_equal]

end Comparison

section Values

variable (hs : schema.Accepted) (hids : schema.OwnIds) (hdata : Conforms schema data) (hw : w.Sound schema)

include hs hids hdata hw

theorem valueAt_eq {path init us : List String} {s o : Place} {S O : EntityType} {last v : String}
    {b b' : Bool} (hσ : w.Interprets schema data base σ)
    (hstart : startOf lambda q T path = (s, S, init ++ [last])) (hkind : w.chart.kind s.var = some S)
    (hwalk : w.Walk schema s S init o O vs b) (hlast : w.Last schema o O last v us b')
    (hsat : ∀ v ∈ vs ++ us, w.chart.SaturatedAt data σ v) :
    valueAt schema data ⟨T, σ q.var, false⟩ (settingOf lambda σ) path = some (σ v, b || b') := by
  obtain ⟨hvs, hus⟩ := List.forall_mem_append.mp hsat
  obtain ⟨hO, hfollow⟩ := hwalk.follow_eq hs hdata hw hσ hkind hvs false
  rw [valueAt, wayTo_eq hstart hfollow, Option.bind_some]
  exact hlast.value_eq hs hdata hw hσ hids hO hus _

theorem Renders.mayBeAbsent_eq (h : Renders schema w q T base lambda f c b vs)
    (hσ : w.Interprets schema data base σ) (hsat : ∀ v ∈ vs, w.chart.SaturatedAt data σ v) :
    b = f.mayBeAbsent schema data ⟨T, σ q.var, false⟩ (settingOf lambda σ) := by
  induction h with
  | parentheses _ ih => exact ih hσ hsat
  | property hstart hkind hwalk hlast =>
      rw [mayBeAbsent, valueAt_eq hs hids hdata hw hσ hstart hkind hwalk hlast hsat]
      rfl
  | _ => rfl

/-- The lambda variables in scope are reached from nowhere and were named before. -/
def Apart (w : Survey) (base : Nat) (lambda : String → Option (Place × EntityType)) : Prop :=
  ∀ ⦃name r t⦄, lambda name = some (r, t) → w.chart.link r.var = none ∧ r.number < base

omit hs hids hdata hw in
theorem Apart.update (h : Apart w base lambda) {l : Place} {x : String} {t : EntityType}
    (hl : w.chart.link l.var = none) (hbase : base ≤ l.number) :
    Apart w (l.number + 1) (Function.update lambda x (some (l, t))) := by
  intro name r t' hlambda
  by_cases hname : name = x
  · subst hname
    obtain ⟨rfl, -⟩ : l = r ∧ t = t' := by simpa using hlambda
    exact ⟨hl, Nat.lt_succ_self _⟩
  · rw [Function.update_of_ne hname] at hlambda
    obtain ⟨hlink, hlt⟩ := h hlambda
    refine ⟨hlink, ?_⟩
    calc r.number < base := hlt
      _ ≤ l.number := hbase
      _ ≤ l.number + 1 := Nat.le_succ _

theorem Renders.value_eq {ops : Operators} (h : Renders schema w q T base lambda f c b vs)
    (hσ : w.Interprets schema data base σ) (hapart : Apart w base lambda)
    (hq : w.chart.link q.var = none) (hqbase : q.number < base) (hbound : (σ q.var).isSome)
    (hsat : ∀ v ∈ vs, w.chart.SaturatedAt data σ v)
    (hground : f.Grounded schema data ⟨T, σ q.var, false⟩ (settingOf lambda σ)) :
    c.value ops data σ = f.value ops schema data ⟨T, σ q.var, false⟩ (settingOf lambda σ) := by
  induction h generalizing σ with
  | string => rfl
  | number h =>
      rw [Filter.value, h]
      rfl
  | boolean => rfl
  | null hk hl hkind =>
      change σ _ = none
      by_contra hsome
      obtain ⟨t, ht⟩ := Option.ne_none_iff_exists'.mp hsome
      obtain ⟨T', hT'⟩ := hσ.kinded ht hl
      simp [hkind] at hT'
  | and _ _ ihf ihg =>
      obtain ⟨hvs, hus⟩ := List.forall_mem_append.mp hsat
      rw [Clause.value, Filter.value, ihf hσ hapart hqbase hbound hvs hground.1,
        ihg hσ hapart hqbase hbound hus hground.2]
  | or _ _ ihf ihg =>
      obtain ⟨hvs, hus⟩ := List.forall_mem_append.mp hsat
      rw [Clause.value, Filter.value, ihf hσ hapart hqbase hbound hvs hground.1,
        ihg hσ hapart hqbase hbound hus hground.2]
  | eq hf hg ihf ihg =>
      obtain ⟨hvs, hus⟩ := List.forall_mem_append.mp hsat
      rw [value_nullSafeEqual, hf.isVar_eq, hg.isVar_eq, ihf hσ hapart hqbase hbound hvs hground.1,
        ihg hσ hapart hqbase hbound hus hground.2, hf.mayBeAbsent_eq hs hids hdata hw hσ hvs,
        hg.mayBeAbsent_eq hs hids hdata hw hσ hus]
      rfl
  | parentheses _ ih => exact ih hσ hapart hqbase hbound hsat hground
  | property hstart hkind hwalk hlast =>
      rw [Filter.value, valueAt_eq hs hids hdata hw hσ hstart hkind hwalk hlast hsat]
      rfl
  | @any base lambda path init vs us s o l S O t x last p hop f c B b b' hstart hkind hwalk hp he hhop ht
      ho hbase hl hlkind hf hlaid hnarrow htargets ih =>
      have hpresent : ∀ {name r t}, among (heads (.any path x f)) lambda name = some (r, t) →
          (σ r.var).isSome := by
        intro name r t h
        obtain ⟨hmem, h⟩ := among_eq_some.mp h
        exact hground.1 name hmem ⟨t, σ r.var, false⟩ (by simp [settingOf, h])
      have hout : Outside schema data w q (among (heads (.any path x f)) lambda) base σ :=
        ⟨hσ, hq, hbound, hpresent⟩
      obtain ⟨n, hn⟩ := Option.isSome_iff_exists.mp (startOf_present hstart
        (fun _ => List.mem_append_left _) hbound hpresent)
      -- the entity at the end of the way, as any completion finds it
      have hcomplete := hσ.complete hw.ordered
      obtain ⟨hO, hfollow⟩ := hwalk.follow_eq hs hdata hw hcomplete hkind
        (fun v _ r h n m hlink hr hlead =>
          (Chart.reading_complete hw.ordered hσ.closed).saturated hlink hr hlead) false
      rw [Chart.complete_of_some hn, ← hn] at hfollow
      have hB : ElementPattern schema w q (among (heads (.any path x f)) lambda) l o hop B := ⟨ho, hl,
        ⟨O, t, hO, hlkind, .related (EntityType.mem_of_property? hp).1 he ht hhop⟩, hlaid, hnarrow,
        htargets l.var (by simp)⟩
      have helements : elementsAt schema data ⟨T, σ q.var, false⟩ (settingOf lambda σ) path =
          some (t, (w.chart.complete data σ o.var).elim [] (data.neighbours hop)) := by
        rw [elementsAt, wayTo_eq hstart hfollow, Option.bind_some]
        simp [Spot.elements, hp, hhop, ht, Except.toOption]
      have hend : ∀ ρ ∈ (Pattern.mk q.var B).group.solutions data σ,
          σ.extend ρ o.var = w.chart.complete data σ o.var := by
        intro ρ hρ
        obtain ⟨-, hfollow'⟩ := hwalk.follow_eq hs hdata hw
          (hout.solution_interprets hdata hw hB hbase hρ) hkind
          (fun v hv => hout.solution_saturatedAt hdata hw hB hbase hρ (htargets v (by simp [hv]))) false
        rw [Assignment.sub_extend σ ρ _ _ hn, ← hn, hfollow] at hfollow'
        simpa using hfollow'.symm
      have hvalue : ∀ ρ ∈ (Pattern.mk q.var B).group.solutions data σ,
          c.value ops data (σ.extend ρ) = f.value ops schema data ⟨T, σ q.var, false⟩
            (Function.update (settingOf lambda σ) x (some ⟨t, σ.extend ρ l.var, false⟩)) := by
        intro ρ hρ
        have hcandidate := hout.solution_mem_candidates hdata hw hB hbase hρ
        rw [hend ρ hρ] at hcandidate
        have hsame : ∀ {r : Place}, w.chart.link r.var = none → r.number < base →
            σ.extend ρ r.var = σ r.var := by
          intro r hlink hlt
          refine hout.solution_eq hdata hw hB hbase hρ hlink fun heq => ?_
          rw [variableName_injective heq] at hlt
          exact absurd hbase (not_le.mpr hlt)
        have hqlater : q.number < l.number + 1 := by
          calc q.number < base := hqbase
            _ ≤ l.number := hbase
            _ ≤ l.number + 1 := Nat.le_succ _
        have hpredicate := ih (hout.solution_interprets hdata hw hB hbase hρ) (hapart.update hl hbase) hqlater
          ((Assignment.sub_extend σ ρ).isSome hbound)
          (fun v hv => hout.solution_saturatedAt hdata hw hB hbase hρ (htargets v (by simp [hv])))
        rw [hsame hq hqbase, settingOf_update fun h => hsame (hapart h).1 (hapart h).2] at hpredicate
        exact hpredicate (hground.2 t _ helements _ hcandidate)
      rw [Clause.value, Filter.value, helements, Option.map_some]
      congr 2
      exact hout.any_solutions hdata hw hB hbase hend fun ρ hρ => by rw [hvalue ρ hρ]

end Values
end EntityGraph.Filter
