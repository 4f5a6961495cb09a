import EntityGraph.Proofs.Pattern.Ways
import EntityGraph.Proofs.Read.Reads

/-!
# Reading the rows of a pattern

The rows of a pattern that tracks a shape give an account of the data and are complete at every
instance of the type that is read, so that decoding them gives the records of the instances. This
holds as well when only the rows of some of the instances are kept, as long as all rows of an
instance are kept or none.
-/
namespace EntityGraph

open Sparql

/-- The variable that a query starts from is the only one that is reached from nowhere. -/
def Place.start (q : Place) : Set String := {q.var}

theorem Chart.closed_empty (chart : Chart) (data : Dataset) (F : Set String) :
    chart.Closed data F .empty := by
  intro v t h
  simp [Assignment.empty] at h

theorem Body.firstPlainEdge?_isSome {B : Body} {v root : String} (h : v ∈ B.plainTargets) :
    (B.firstPlainEdge? root).isSome := by
  induction B with
  | nil => simp [plainTargets] at h
  | leaf predicate term rest ih => exact ih h
  | edge e below rest _ ih =>
      unfold plainTargets at h
      unfold firstPlainEdge?
      split at h
      · next hopt =>
          rw [if_pos hopt]
          exact ih h
      · next hopt =>
          rw [if_neg hopt]
          rfl
  | alternative isSlot body rest _ ih => exact ih h
  | conjunct own body rest _ ih => exact ih h

theorem Body.ownAnchor?_isSome {B : Body} {v root : String} (h : v ∈ B.plainTargets) :
    (B.ownAnchor? root).isSome := by
  simp [ownAnchor?, firstPlainEdge?_isSome h]

/-- What reading a pattern rests on. -/
structure Readable (schema : Schema) (data : Dataset) (w : Survey) (q : Place) (T : EntityType)
    (body : Body) : Prop where
  grounds : Grounds schema data w q.start
  kind : w.chart.kind q.var = some T
  fits : body.Each (w.chart.fits .empty) q.var
  supplied : body.Each (Body.supplied data fun v n =>
    w.chart.Good schema data v n ∧ (v = q.var → T.Instance data n)) q.var
  rdfClass : ∀ μ ∈ (Pattern.mk q.var body).group.solutions data .empty, ∀ n c,
    μ.get? q.var = some n → T.rdfClass = some c →
      ⟨n, data.resolve "rdf:type", data.resolve c⟩ ∈ data.statements

section Rows

variable {schema : Schema} {data : Dataset} {w : Survey} {q : Place} {T : EntityType} {body : Body}
  {μ : Solution} {var : String}

theorem Readable.closed (h : Readable schema data w q T body)
    (hμ : μ ∈ (Pattern.mk q.var body).group.solutions data .empty) :
    w.chart.Closed data q.start μ.get? := by
  have hclosed := Pattern.closed_of_mem_solutions (p := ⟨q.var, body⟩) h.grounds.sound.ordered h.fits
    (w.chart.closed_empty data q.start) rfl hμ
  rwa [Assignment.extend_empty] at hclosed

theorem Readable.instance_of (h : Readable schema data w q T body)
    (hvar : w.names.value? q idName = some var) (hplain : var ∈ body.plainTargets)
    (hμ : μ ∈ (Pattern.mk q.var body).group.solutions data .empty) :
    ∃ n, μ.get? q.var = some n ∧ T.Instance data n := by
  obtain ⟨i, -, hi, -, -, -, hl⟩ := h.grounds.id_link h.kind hvar
  have hbound := Pattern.bound_of_mem_solutions (p := ⟨q.var, body⟩) h.grounds.sound.ordered h.fits
    (w.chart.closed_empty data q.start) rfl hμ hplain
  rw [Assignment.extend_empty] at hbound
  obtain ⟨a, ha⟩ := Option.isSome_iff_exists.mp hbound
  obtain hF | ⟨r, hop, n, hl', hn, hlead⟩ := h.closed hμ var a ha
  · simp [h.grounds.unlinked var hF] at hl
  · obtain ⟨rfl, rfl⟩ : r = q.var ∧ hop = i.valueHop := by
      simpa using Option.some.inj (hl'.symm.trans hl)
    exact ⟨n, hn, fun c hc => h.rdfClass μ hμ n c hn hc, i, a, hi, hlead⟩

theorem Readable.good_of_instance (h : Readable schema data w q T body) {ν : Assignment}
    (hν : w.chart.Closed data q.start ν) {n : Term} (hνn : ν q.var = some n) (hn : T.Instance data n) :
    ∀ v t, ν v = some t → w.chart.Good schema data v t ∧ (v = q.var → T.Instance data t) := by
  have hg := h.grounds
  refine hν.good hg.sound.ordered (fun v hv t ht => ?_) fun {v r hop a b} hlink ha hlead => ?_
  · obtain rfl : v = q.var := hv
    obtain rfl : n = t := Option.some.inj (hνn.symm.trans ht)
    refine ⟨fun T' hT' => ?_, fun _ => hn⟩
    obtain rfl : T = T' := Option.some.inj (h.kind.symm.trans hT')
    exact .of_instance (hg.sound.declared h.kind) hn
  · refine ⟨hg.sound.good_step hlink ha.1 hlead, ?_⟩
    rintro rfl
    simp [hg.unlinked _ rfl] at hlink

theorem Readable.good (h : Readable schema data w q T body)
    (hvar : w.names.value? q idName = some var) (hplain : var ∈ body.plainTargets)
    (hμ : μ ∈ (Pattern.mk q.var body).group.solutions data .empty) :
    ∀ v t, μ.get? v = some t → w.chart.Good schema data v t := by
  obtain ⟨n, hn, hinstance⟩ := h.instance_of hvar hplain hμ
  exact fun v t ht => (h.good_of_instance (h.closed hμ) hn hinstance v t ht).1

theorem Readable.bound? (h : Readable schema data w q T body)
    (hμ : μ ∈ (Pattern.mk q.var body).group.solutions data .empty) (k : Nat) :
    (Row.ofSolution μ).bound? (variableName k) = (μ.get? (variableName k)).map Term.text := by
  refine bound?_ofSolution (fun v t hvt => ?_) k
  obtain ⟨t', ht'⟩ : ∃ t', μ.get? v = some t' := by
    cases hv : μ.get? v with
    | some t' => exact ⟨t', rfl⟩
    | none => simpa using List.lookup_eq_none_iff.mp hv _ hvt
  obtain hF | ⟨r, hop, n, hl, -⟩ := h.closed hμ v t' ht'
  · exact ⟨q.number, hF⟩
  · obtain ⟨k, -, hk⟩ := h.grounds.sound.linked hl
    exact ⟨k, hk⟩

/-- For every instance, and whatever way a reading that starts at it takes, there is a solution that
takes this way. -/
theorem Readable.exists_solution (h : Readable schema data w q T body)
    (hvar : w.names.value? q idName = some var) (hplain : var ∈ body.plainTargets) {n : Term}
    (hn : T.Instance data n) {ν : Assignment} (hν : w.chart.Reading data q.start ν)
    (hνn : ν q.var = some n) {vs : List String} (hvs : body.Binds vs)
    (hbound : ∀ v ∈ vs, (ν v).isSome) :
    ∃ μ ∈ (Pattern.mk q.var body).group.solutions data .empty, μ.get? q.var = some n ∧
      ∀ v ∈ vs, μ.get? v = ν v := by
  have hg := h.grounds
  obtain ⟨i, -, hi, -, -, hreq, hl⟩ := hg.id_link h.kind hvar
  have hgood := h.good_of_instance hν.closed hνn hn
  have havoid : body.Each (Body.avoiding q.start) q.var := by
    refine h.fits.mono (fun _ _ _ _ => trivial) (fun r e he hF => ?_) fun _ _ _ => trivial
    have hlink : w.chart.link e.target = some (r, e.hop) := he
    simp [hg.unlinked _ hF] at hlink
  have hfollowed := Body.followed_of_reading hν hgood h.fits h.supplied havoid
  -- the identifier is on every way, and with it the root
  have hid : (ν var).isSome := by
    obtain ⟨j, b, hj, hlead⟩ := hn.2
    obtain rfl : i = j := Option.some.inj (hi.symm.trans hj)
    exact hν.saturated hl hνn hlead
  obtain ⟨μ, hμ, hwithin, hall⟩ := Pattern.exists_solution_of_binds (p := ⟨q.var, body⟩)
    hg.sound.ordered (show Assignment.empty.Sub ν by intro v t hv; simp [Assignment.empty] at hv) h.fits
    hfollowed hνn
    (Or.inl (Body.ownAnchor?_isSome hplain)) (hvs.cons_plain hplain)
    (List.forall_mem_cons.mpr ⟨hid, hbound⟩)
  rw [Assignment.extend_empty] at hall
  have hsame : ∀ v, (μ.get? v).isSome → μ.get? v = ν v := by
    intro v hv
    obtain ⟨t, ht⟩ := Option.isSome_iff_exists.mp hv
    rw [ht, hwithin v t ht]
  refine ⟨μ, hμ, ?_, fun v hv => hsame v (hall v (List.mem_cons_of_mem _ hv))⟩
  obtain ⟨n', hn', -⟩ := h.instance_of hvar hplain hμ
  rw [hsame q.var (by simp [hn']), hνn]

/-- Decoding the rows that are kept gives the records of the instances they are about. -/
theorem Readable.decode (h : Readable schema data w q T body) {expand : ExpandTree} {shape : Shape}
    (hshape : Shape.ofExpand schema T expand = .ok shape) (htracked : shape.Tracked w.names q body)
    {kept : Solution → Bool} {S : Term → Prop}
    (hkept : ∀ μ ∈ (Pattern.mk q.var body).group.solutions data .empty, ∀ n, μ.get? q.var = some n →
      T.Instance data n → (kept μ = true ↔ S n))
    {rows : List Row} (hrows : rows.Perm
      ((((Pattern.mk q.var body).group.solutions data .empty).filter kept).map Row.ofSolution)) :
    ∃ records nodes, EntityGraph.decode schema w.names T expand q rows = .ok records ∧
      nodes.Nodup ∧ (∀ n, n ∈ nodes ↔ T.Instance data n ∧ S n) ∧
      ReadsEach schema data T expand nodes records := by
  have hg := h.grounds
  have hTs := hg.sound.declared h.kind
  have hshows := Shape.shows_ofExpand hg.accepted hTs hshape
  obtain ⟨var, hvar, hplain⟩ := hshows.tracked_id hg.accepted hTs htracked
  have hsolution : ∀ row ∈ rows, ∃ μ ∈ (Pattern.mk q.var body).group.solutions data .empty,
      kept μ = true ∧ row = Row.ofSolution μ := by
    intro row hrow
    obtain ⟨μ, hμ, rfl⟩ := List.mem_map.mp (hrows.mem_iff.mp hrow)
    obtain ⟨hμ, hk⟩ := List.mem_filter.mp hμ
    exact ⟨μ, hμ, hk, rfl⟩
  choose! solution hmem hk heq using hsolution
  have haccount : Account schema data w q.start (fun row => (solution row).get?) rows := by
    refine ⟨fun row hrow k => ?_, fun row hrow => h.closed (hmem row hrow),
      fun row hrow => h.good hvar hplain (hmem row hrow)⟩
    rw [← h.bound? (hmem row hrow), ← heq row hrow]
  have hconsistent : ∀ id, shape.Consistent w.names q (Row.group var id rows) := fun id =>
    Account.consistent hg hshows (fun _ h => h) h.kind htracked
      (haccount.subset List.filter_sublist.subset) (haccount.same_of_group hg h.kind hvar id)
  have hdistinct := hshows.distinct hg.accepted hTs (List.suffix_refl _)
  obtain ⟨coll, hcoll, hgathered⟩ := Shape.collect_ok hdistinct hvar hconsistent T.name
  have hcomplete : ∀ n, T.Instance data n ∧ S n → ∃ ν₀, w.chart.Reading data q.start ν₀ ∧
      ν₀ q.var = some n ∧ Complete data w q.start q body ν₀ rows := by
    rintro n ⟨hn, hS⟩
    have hstart : w.chart.Closed data q.start fun v => if v = q.var then some n else none := by
      intro v t hv
      by_cases hvq : v = q.var
      · exact Or.inl hvq
      · simp [hvq] at hv
    refine ⟨_, Chart.reading_complete hg.sound.ordered hstart, Chart.complete_of_some (if_pos rfl), ?_⟩
    intro ν hν hagree vs hvs hbound
    have hνn : ν q.var = some n := by
      have hfirst : w.chart.complete data (fun v => if v = q.var then some n else none) q.var = some n :=
        Chart.complete_of_some (if_pos rfl)
      rw [hagree q.var (by simp) (by simp [hfirst]), hfirst]
    obtain ⟨μ, hμ, hμn, hsame⟩ := h.exists_solution hvar hplain hn hν hνn hvs hbound
    refine ⟨Row.ofSolution μ, ?_, fun v hv => ?_⟩
    · refine hrows.mem_iff.mpr (List.mem_map_of_mem (List.mem_filter.mpr ⟨hμ, ?_⟩))
      exact (hkept μ hμ n hμn hn).mpr hS
    · have hvν : μ.get? v = ν v := by
        obtain rfl | hv := List.mem_cons.mp hv
        · rw [hμn, hνn]
        · exact hsame v hv
      have hnumber : ∃ k, v = variableName k := by
        obtain rfl | hv := List.mem_cons.mp hv
        · exact ⟨q.number, rfl⟩
        · obtain ⟨t, ht⟩ := Option.isSome_iff_exists.mp (hbound v hv)
          obtain hF | ⟨r, hop, m, hl, -⟩ := hν.closed v t ht
          · exact ⟨q.number, hF⟩
          · obtain ⟨k, -, hk⟩ := hg.sound.linked hl
            exact ⟨k, hk⟩
      obtain ⟨k, rfl⟩ := hnumber
      rw [h.bound? hμ, hvν]
  obtain ⟨nodes, hnodup, hnodes, hreads⟩ := readsEach_of_gathered hg haccount h.kind hshows htracked hvar
    hgathered (fun n hn => .of_instance hTs hn.1)
    (fun row hrow n hn => by
      obtain ⟨n', hn', hinstance⟩ := h.instance_of hvar hplain (hmem row hrow)
      obtain rfl : n' = n := Option.some.inj (hn'.symm.trans hn)
      exact ⟨hinstance, (hkept _ (hmem row hrow) n' hn hinstance).mp (hk row hrow)⟩)
    hcomplete
    fun hm ha hat hν hn hc hh => readsFields_of_holds hg hshows (fun _ h => h) h.kind htracked hm ha hat hν
      hn hc hh
  refine ⟨_, nodes, ?_, hnodup, hnodes, hreads⟩
  rw [decode_eq_collect hshape, hcoll]
  rfl

theorem Readable.decode_all (h : Readable schema data w q T body) {expand : ExpandTree} {shape : Shape}
    (hshape : Shape.ofExpand schema T expand = .ok shape) (htracked : shape.Tracked w.names q body)
    {rows : List Row} (hrows : rows.Perm
      (((Pattern.mk q.var body).group.solutions data .empty).map Row.ofSolution)) :
    ∃ records nodes, EntityGraph.decode schema w.names T expand q rows = .ok records ∧
      nodes.Nodup ∧ (∀ n, n ∈ nodes ↔ T.Instance data n) ∧
      ReadsEach schema data T expand nodes records := by
  have hall : ∀ μ ∈ (Pattern.mk q.var body).group.solutions data .empty, ∀ n, μ.get? q.var = some n →
      T.Instance data n → ((fun _ => true : Solution → Bool) μ = true ↔ (fun _ => True) n) := by simp
  rw [← List.filter_true ((Pattern.mk q.var body).group.solutions data .empty)] at hrows
  obtain ⟨records, nodes, hdecode, hnodup, hnodes, hreads⟩ := h.decode hshape htracked hall hrows
  exact ⟨records, nodes, hdecode, hnodup, by simpa using hnodes, hreads⟩

end Rows
end EntityGraph
