import EntityGraph.Proofs.Filter.Selection
import EntityGraph.Proofs.Read.Alike
import EntityGraph.Proofs.Read.Condition

/-!
# A condition only selects

In every row the variables of the condition are bound to what the condition is about, whatever else the
row binds, because the conjunct of the condition leaves nothing out. So all rows of an entity satisfy the
condition or none does, and the rows that are kept give the complete records of the entities that satisfy
it.
-/
namespace EntityGraph

open Sparql

section Rows

variable {schema : Schema} {data : Dataset} {w : Survey} {q : Place} {T : EntityType} {body : Body}
  {μ : Solution} {var : String}

theorem Readable.holds (h : Readable schema data w q T body)
    (hvar : w.names.value? q idName = some var) (hplain : var ∈ body.plainTargets)
    (hμ : μ ∈ (Pattern.mk q.var body).group.solutions data .empty) :
    Pattern.Holds w.chart data .empty q.start
      (fun v n => w.chart.Good schema data v n ∧ (v = q.var → T.Instance data n)) ⟨q.var, body⟩ μ := by
  obtain ⟨n, hn, hinstance⟩ := h.instance_of hvar hplain hμ
  refine ⟨h.grounds.sound.ordered, h.grounds.unlinked, h.fits, h.supplied,
    Or.inl (Body.ownAnchor?_isSome hplain), hμ, ?_, ?_, fun σ hσ hsub => ?_⟩
  · rw [Assignment.extend_empty]
    exact h.closed hμ
  · simp [Assignment.extend_empty, hn]
  · rw [Assignment.extend_empty] at hsub
    exact h.good_of_instance hσ (hsub _ _ hn) hinstance

theorem Readable.interprets (h : Readable schema data w q T body)
    (hvar : w.names.value? q idName = some var) (hplain : var ∈ body.plainTargets)
    (hμ : μ ∈ (Pattern.mk q.var body).group.solutions data .empty) {base : Nat} (hbase : q.number < base) :
    w.Interprets schema data base μ.get? := by
  have hfree : ∀ {v t}, μ.get? v = some t → w.chart.link v = none → v = q.var := by
    intro v t hv hl
    obtain hF | ⟨r, h, n, hl', -⟩ := h.closed hμ v t hv
    · exact hF
    · simp [hl] at hl'
  refine ⟨fun {v t r hop} hv hl => ?_, fun hv hl => ?_, fun hv _ => h.good hvar hplain hμ _ _ hv _,
    fun hv hl => ?_⟩
  · obtain hF | ⟨r', hop', n, hl', hn, hlead⟩ := h.closed hμ v t hv
    · simp [h.grounds.unlinked v hF] at hl
    · obtain ⟨rfl, rfl⟩ : r = r' ∧ hop = hop' := by simpa using Option.some.inj (hl.symm.trans hl')
      exact ⟨n, hn, hlead⟩
  · rw [hfree hv hl]
    exact ⟨T, h.kind⟩
  · rw [hfree hv hl, variableNumber_var]
    exact hbase

end Rows

theorem ReadsEach.exists_pairs {schema : Schema} {data : Dataset} {T : EntityType} {expand : ExpandTree}
    {ns : List Term} {records : List Record} (h : ReadsEach schema data T expand ns records) :
    ∃ pairs : List (Term × Record), pairs.map Prod.fst = ns ∧ pairs.map Prod.snd = records ∧
      ∀ pair ∈ pairs, ReadsFields schema data T expand pair.1 T.properties pair.2 := by
  induction ns generalizing records with
  | nil =>
      cases h with
      | nil => exact ⟨[], rfl, rfl, by simp⟩
  | cons n ns ih =>
      cases h with
      | cons hn hs =>
          obtain ⟨pairs, hns, hrecords, hreads⟩ := ih hs
          refine ⟨(n, _) :: pairs, ?_, ?_, List.forall_mem_cons.mpr ⟨hn, hreads⟩⟩
          · simp [hns]
          · simp [hrecords]

namespace Reader

section Answers

variable {reader : Reader} {ops : Operators} {data : Dataset} {set : String} {expand : ExpandTree}
  {f : Filter} {query : CompiledQuery} (hs : reader.schema.Accepted) (hids : reader.schema.OwnIds)
  (hrules : reader.rules = Rule.builtin) (hdata : Conforms reader.schema data)

include hs hids hrules hdata

theorem answer_unfiltered (h : reader.compile { entitySet := set, expand } = .ok query) {rows : List Row}
    (hrows : rows.Perm (query.rows ops data)) :
    ∃ nodes records, reader.answer { entitySet := set, expand } query rows = .ok (.all records) ∧
      nodes.Nodup ∧ (∀ n, n ∈ nodes ↔ query.entityType.Instance data n) ∧
      ReadsEach reader.schema data query.entityType expand nodes records := by
  obtain ⟨howner, hroot, hexpand, hpattern⟩ := compile_ok h
  obtain ⟨hcondition, hcompile⟩ := compilePattern_none rfl hpattern
  rw [hrules] at hcompile
  obtain ⟨w, shape, hnames, hle, hw, -, hplace, hshape, htracked, body, hlaid, hbody⟩ :=
    ExpandTree.compile_start hs hids (hs.entitySet howner) hcompile
  rw [hplace] at hlaid
  have hgroup : query.pattern = ⟨startingPosition.1.place.var, query.entityType.withClass body⟩ := by
    rw [← hplace, ← hbody]
  rw [hbody] at htracked
  simp only [CompiledQuery.rows, hcondition, Option.all_none, List.filter_true, hgroup] at hrows
  obtain ⟨records, nodes, hdecode, hnodup, hnodes, hreads⟩ :=
    (Readable.of_laid hs hids hdata hw hle hlaid).decode_all hshape htracked hrows
  refine ⟨nodes, records, ?_, hnodup, hnodes, hreads⟩
  simp only [answer, ← hnames, hexpand, hroot, hdecode]
  rfl

theorem condition_rows (hkey : Function.Injective reader.key) {request : ReadRequest}
    (hfilter : request.effectiveFilter = some f) (h : reader.compile request = .ok query) :
    ∃ w clause b vs base, query.condition = some clause ∧ w.Sound reader.schema ∧
      f.Renders reader.schema w startingPosition.1.place query.entityType base (fun _ => none) clause b vs ∧
      w.chart.link startingPosition.1.place.var = none ∧ startingPosition.1.place.number < base ∧
      ∀ μ ∈ query.pattern.group.solutions data .empty, w.Interprets reader.schema data base μ.get? ∧
        ∀ v ∈ vs, w.chart.SaturatedAt data μ.get? v := by
  obtain ⟨w, shape, clause, C, vs, hnames, hle, hcondition, hplace, hshape, htracked,
    ⟨w₀, hconditioned, hle₀⟩, body, hlaid, hmem, hbody⟩ := compile_condition hs hids hrules hkey hfilter h
  obtain ⟨b, hrenders⟩ := hconditioned.renders
  have hw := hconditioned.sound
  have hgroup : query.pattern = ⟨startingPosition.1.place.var, query.entityType.withClass body⟩ := by
    rw [← hplace, ← hbody]
  have hread := Readable.of_laid hs hids hdata hw hle hlaid
  rw [hbody] at htracked
  have hT := hw.declared hread.kind
  obtain ⟨var, hvar, hplain⟩ := (Shape.shows_ofExpand hs hT hshape).tracked_id hs hT htracked
  have hC : (startingPosition.1.place.var, C) ∈ (query.entityType.withClass body).conjuncts := by
    unfold EntityType.withClass
    split <;> exact hmem
  have hunlinked := hread.grounds.unlinked startingPosition.1.place.var rfl
  have hbase : startingPosition.1.place.number < w₀.names.next := lt_of_lt_of_le Nat.zero_lt_one hle₀.next
  refine ⟨w, clause, b, vs, w₀.names.next, hcondition, hw, hrenders, hunlinked, hbase, fun μ hμ => ?_⟩
  rw [hgroup] at hμ
  refine ⟨hread.interprets hvar hplain hμ hbase, fun v hv => ?_⟩
  have hsaturated := (hread.holds hvar hplain hμ).saturatedAt_conjunct hC hunlinked
    (hconditioned.laid.mono (fun _ _ _ _ => trivial) (fun _ _ _ => trivial) fun _ _ h => Or.inl
      (h.resolve_right fun h => Outlook.not_mem_bound_empty _ h.2))
    hconditioned.narrow (hconditioned.targets v hv)
  rwa [Assignment.extend_empty] at hsaturated

theorem answer_filtered (hkey : Function.Injective reader.key) (hf : f.isSelection = true)
    (h : reader.compile { entitySet := set, expand, filter := some f } = .ok query) {rows : List Row}
    (hrows : rows.Perm (query.rows ops data)) :
    ∃ nodes records, reader.answer { entitySet := set, expand, filter := some f } query rows =
        .ok (.all records) ∧
      nodes.Nodup ∧
      (∀ n, n ∈ nodes ↔ query.entityType.Instance data n ∧
        f.selects ops reader.schema data ⟨query.entityType, some n, false⟩ = true) ∧
      ReadsEach reader.schema data query.entityType expand nodes records := by
  obtain ⟨-, hroot, hexpand, -⟩ := compile_ok h
  obtain ⟨w, shape, _, C, _, hnames, hle, -, hplace, hshape, htracked, ⟨w₀, hconditioned, -⟩,
    body, hlaid, hmem, hbody⟩ := compile_condition hs hids hrules hkey rfl h
  obtain ⟨w', clause, b, vs, base, hcondition, hw', hrenders, hunlinked, hbase, hinterprets⟩ :=
    condition_rows hs hids hrules hdata hkey rfl h
  have hgroup : query.pattern = ⟨startingPosition.1.place.var, query.entityType.withClass body⟩ := by
    rw [← hplace, ← hbody]
  rw [hbody] at htracked
  have hkept : ∀ μ ∈ (Pattern.mk startingPosition.1.place.var
      (query.entityType.withClass body)).group.solutions data .empty, ∀ n,
      μ.get? startingPosition.1.place.var = some n → query.entityType.Instance data n →
        ((some clause).all (fun clause => clause.holds ops data μ.get?) = true ↔
          f.selects ops reader.schema data ⟨query.entityType, some n, false⟩ = true) := by
    intro μ hμ n hn _
    obtain ⟨hσ, hsat⟩ := hinterprets μ (hgroup ▸ hμ)
    rw [Option.all_some, hrenders.holds_eq_selects hs hids hdata hw' hσ hf rfl hsat hunlinked hbase
      (by simp [hn]), hn]
  simp only [CompiledQuery.rows, hcondition, hgroup] at hrows
  obtain ⟨records, nodes, hdecode, hnodup, hnodes, hreads⟩ :=
    (Readable.of_laid hs hids hdata hconditioned.sound hle hlaid).decode hshape htracked hkept hrows
  rw [hexpand] at hreads
  refine ⟨nodes, records, ?_, hnodup, hnodes, hreads⟩
  simp only [answer, ← hnames, hroot, hdecode]
  rfl

/-- A condition only selects: the answer has the records of those entities of the unfiltered answer that
satisfy the condition, each with the same content. -/
theorem answer_selects (hkey : Function.Injective reader.key) (hf : f.isSelection = true)
    (h : reader.compile { entitySet := set, expand, filter := some f } = .ok query) :
    ∃ unfiltered, reader.compile { entitySet := set, expand } = .ok unfiltered ∧
      ∀ rows allRows, rows.Perm (query.rows ops data) → allRows.Perm (unfiltered.rows ops data) →
        ∃ all selected : List (Term × Record),
          reader.answer { entitySet := set, expand } unfiltered allRows = .ok (.all (all.map Prod.snd)) ∧
          reader.answer { entitySet := set, expand, filter := some f } query rows =
            .ok (.all (selected.map Prod.snd)) ∧
          (all.map Prod.fst).Nodup ∧ (selected.map Prod.fst).Nodup ∧
          (∀ pair ∈ all, query.entityType.Instance data pair.1 ∧
            ReadsFields reader.schema data query.entityType expand pair.1
              query.entityType.properties pair.2) ∧
          (∀ n, n ∈ selected.map Prod.fst ↔ n ∈ all.map Prod.fst ∧
            f.selects ops reader.schema data ⟨query.entityType, some n, false⟩ = true) ∧
          ∀ n record record', (n, record) ∈ all → (n, record') ∈ selected → record.Alike record' := by
  obtain ⟨unfiltered, hunfiltered, htype⟩ := compile_unfiltered h
  refine ⟨unfiltered, hunfiltered, fun rows allRows hrows hall => ?_⟩
  obtain ⟨nodes, records, hanswer, hnodup, hnodes, hreads⟩ :=
    answer_unfiltered hs hids hrules hdata hunfiltered hall
  obtain ⟨nodes', records', hanswer', hnodup', hnodes', hreads'⟩ :=
    answer_filtered hs hids hrules hdata hkey hf h hrows
  rw [htype] at hnodes hreads
  obtain ⟨all, rfl, rfl, hall⟩ := hreads.exists_pairs
  obtain ⟨selected, rfl, rfl, hselected⟩ := hreads'.exists_pairs
  have hinstance : ∀ pair ∈ all, query.entityType.Instance data pair.1 := fun pair hpair =>
    (hnodes pair.1).mp (List.mem_map_of_mem hpair)
  refine ⟨all, selected, hanswer, hanswer', hnodup, hnodup',
    fun pair hpair => ⟨hinstance pair hpair, hall pair hpair⟩,
    fun n => by rw [hnodes', hnodes], fun n record record' hrecord hrecord' => ?_⟩
  have hT := hs.entitySet (compile_ok h).1
  exact (hall _ hrecord).alike hs hdata (hselected _ hrecord') (.of_instance hT (hinstance _ hrecord))
    fun _ hp => hp

end Answers

/-- Things without a whole, read with their parts from data with two things. -/
theorem answer_selects_sample :
    Sample.schema.Accepted ∧ Sample.schema.OwnIds ∧ Conforms Sample.schema Sample.data ∧
      Function.Injective (id : Nat → ScopeKey) ∧
      (Filter.eq (.property ["WholeId"]) .null).isSelection = true ∧
      ∃ query unfiltered rows,
        Reader.compile ⟨Sample.schema, Rule.builtin, id⟩ ⟨"Things", .cons "Parts" .nil .nil,
          some (.eq (.property ["WholeId"]) .null), none⟩ = .ok query ∧
        Reader.compile ⟨Sample.schema, Rule.builtin, id⟩ ⟨"Things", .cons "Parts" .nil .nil, none, none⟩ =
          .ok unfiltered ∧
        rows = unfiltered.rows Sample.operators Sample.data ∧
        ∃ all selected : List (Term × Record),
          Reader.answer ⟨Sample.schema, Rule.builtin, id⟩ ⟨"Things", .cons "Parts" .nil .nil, none, none⟩
            unfiltered rows = .ok (.all (all.map Prod.snd)) ∧
          Reader.answer ⟨Sample.schema, Rule.builtin, id⟩ ⟨"Things", .cons "Parts" .nil .nil,
            some (.eq (.property ["WholeId"]) .null), none⟩ query
            (query.rows Sample.operators Sample.data) = .ok (.all (selected.map Prod.snd)) ∧
          (∀ n, n ∈ selected.map Prod.fst ↔ n ∈ all.map Prod.fst ∧
            (Filter.eq (.property ["WholeId"]) .null).selects Sample.operators Sample.schema Sample.data
              ⟨query.entityType, some n, false⟩ = true) ∧
          ∀ n record record', (n, record) ∈ all → (n, record') ∈ selected → record.Alike record' := by
  obtain ⟨query, hc⟩ : ∃ query, Reader.compile ⟨Sample.schema, Rule.builtin, id⟩ ⟨"Things",
      .cons "Parts" .nil .nil, some (.eq (.property ["WholeId"]) .null), none⟩ = .ok query := ⟨_, rfl⟩
  obtain ⟨unfiltered, hunfiltered, h⟩ := answer_selects Sample.accepted Sample.ownIds
    rfl Sample.conforms Function.injective_id rfl hc
  obtain ⟨all, selected, hall, hselected, -, -, -, hiff, halike⟩ := h _ _ (.refl _) (.refl _)
  exact ⟨Sample.accepted, Sample.ownIds, Sample.conforms, Function.injective_id, rfl, query,
    unfiltered, _, hc, hunfiltered, rfl, all, selected, hall, hselected, hiff, halike⟩

end Reader
end EntityGraph
