import EntityGraph.Proofs.Naming.Variable
import EntityGraph.Proofs.Read.Conforms
import EntityGraph.Proofs.Results.Grouping

/-!
# Rows that give an account of the data

Rows give an account of the data when each of them reports a closed assignment of members. Such
rows are consistent. They are complete at an entity when every way through its pattern that the data
allow is shown by some row. What is gathered from rows with both properties is what is to be read of
the entities.
-/
namespace EntityGraph

open Sparql

namespace Shape

variable {schema : Schema} {T : EntityType} {expand : ExpandTree} {ps : List Property} {shape : Shape}

theorem Shows.labels_subset (h : Shows schema expand ps shape) :
    shape.labels ⊆ ps.map (·.name) := by
  induction h with
  | nil => exact List.nil_subset _
  | value _ _ ih => exact List.cons_subset_cons _ ih
  | skip _ _ _ ih => exact List.subset_cons_of_subset _ ih
  | navigation _ _ _ _ _ _ ih => exact List.cons_subset_cons _ ih

theorem Shows.distinct (hs : schema.Accepted) (hT : T ∈ schema.types)
    (h : Shows schema expand ps shape) (hps : ps <:+ T.properties) : shape.Distinct := by
  induction h generalizing T with
  | nil => trivial
  | @value expand p ps rest he hrest ih =>
      have hnodup := ((hs.checks.1 T hT).2.sublist (hps.sublist.map _))
      refine ⟨fun hmem => ?_, ih hT ((List.suffix_cons p ps).trans hps)⟩
      exact (List.nodup_cons.mp hnodup).1 (hrest.labels_subset hmem)
  | @skip expand p ps shape _ _ _ ih => exact ih hT ((List.suffix_cons p ps).trans hps)
  | @navigation expand sub p t ps below rest he hc ht hbelow hrest ihBelow ih =>
      have hnodup := ((hs.checks.1 T hT).2.sublist (hps.sublist.map _))
      have hp : p ∈ T.properties := hps.subset List.mem_cons_self
      obtain ⟨t', ht', htarget⟩ := hs.targetType hT hp he
      obtain rfl : t = t' := Except.ok.inj (ht.symm.trans htarget)
      refine ⟨fun hmem => ?_, ihBelow ht' (List.suffix_refl _), ih hT ((List.suffix_cons p ps).trans hps)⟩
      exact (List.nodup_cons.mp hnodup).1 (hrest.labels_subset hmem)

theorem Shows.tracked_value {names : Naming} {q : Place} {B : Body}
    (h : Shows schema expand ps shape) (ht : shape.Tracked names q B) {p : Property} (hp : p ∈ ps)
    (he : p.isElementary = true) :
    ∃ v, names.value? q p.name = some v ∧ (p.isId = true → v ∈ B.plainTargets) := by
  induction h generalizing B with
  | nil => simp at hp
  | value _ _ ih =>
      obtain ⟨⟨v, hv, hid, -⟩, hrest⟩ := ht
      obtain rfl | hp := List.mem_cons.mp hp
      · exact ⟨v, hv, hid⟩
      · exact ih hrest hp
  | skip hne _ _ ih =>
      obtain rfl | hp := List.mem_cons.mp hp
      · simp [he] at hne
      · exact ih ht hp
  | navigation hne _ _ _ _ _ ih =>
      obtain rfl | hp := List.mem_cons.mp hp
      · simp [he] at hne
      · exact ih ht.2 hp

theorem Shows.tracked_id (hs : schema.Accepted) (hT : T ∈ schema.types)
    (h : Shows schema expand T.properties shape) {names : Naming} {q : Place} {B : Body}
    (ht : shape.Tracked names q B) :
    ∃ v, names.value? q idName = some v ∧ v ∈ B.plainTargets := by
  obtain ⟨i, hi, hname, -, he, -⟩ := hs.id hT
  obtain ⟨v, hv, hid⟩ := h.tracked_value ht hi he
  exact ⟨v, hname ▸ hv, hid (isId_iff.mpr hname)⟩

end Shape

/-- What the rows report, each by an assignment of its own. -/
structure Account (schema : Schema) (data : Dataset) (w : Survey) (F : Set String)
    (σ : Row → Assignment) (rows : List Row) : Prop where
  bound : ∀ row ∈ rows, ∀ k,
    row.bound? (variableName k) = (σ row (variableName k)).map Term.text
  closed : ∀ row ∈ rows, w.chart.Closed data F (σ row)
  good : ∀ row ∈ rows, ∀ v t, σ row v = some t → w.chart.Good schema data v t

/-- Whatever way a reading takes through the pattern of an entity, some row shows it. -/
def Complete (data : Dataset) (w : Survey) (F : Set String) (q : Place) (B : Body) (ν₀ : Assignment)
    (rows : List Row) : Prop :=
  ∀ ν, w.chart.Reading data F ν →
    (∀ v, variableNumber v ≤ q.number → (ν₀ v).isSome → ν v = ν₀ v) →
      ∀ vs, B.Binds vs → (∀ v ∈ vs, (ν v).isSome) →
        ∃ row ∈ rows, ∀ v ∈ q.var :: vs, row.bound? v = (ν v).map Term.text

section Account

variable {schema : Schema} {data : Dataset} {w : Survey} {F : Set String} {σ : Row → Assignment}
  {rows : List Row}

theorem Account.subset {rows' : List Row} (h : Account schema data w F σ rows') (hsub : rows ⊆ rows') :
    Account schema data w F σ rows :=
  ⟨fun row hrow => h.bound row (hsub hrow), fun row hrow => h.closed row (hsub hrow),
    fun row hrow => h.good row (hsub hrow)⟩

theorem Account.follow (h : Account schema data w F σ rows) (hw : w.Sound schema)
    (hF : ∀ v ∈ F, w.chart.link v = none) {row : Row} (hrow : row ∈ rows) {v r : String} {hop : Hop}
    (hl : w.chart.link v = some (r, hop)) {s : String} (hs : row.bound? v = some s) :
    ∃ t n, σ row v = some t ∧ t.text = s ∧ σ row r = some n ∧ data.Leads hop n t := by
  obtain ⟨k, -, rfl⟩ := hw.linked hl
  rw [h.bound row hrow k] at hs
  obtain ⟨t, ht, hts⟩ := Option.map_eq_some_iff.mp hs
  obtain hvF | ⟨r', hop', n, hl', hn, hlead⟩ := h.closed row hrow _ t ht
  · simp [hF _ hvF] at hl
  · obtain ⟨rfl, rfl⟩ : r' = r ∧ hop' = hop := by simpa using Option.some.inj (hl'.symm.trans hl)
    exact ⟨t, n, ht, hts, hn, hlead⟩

theorem Account.followed (h : Account schema data w F σ rows)
    (hF : ∀ v ∈ F, w.chart.link v = none) {row : Row} (hrow : row ∈ rows) {v r : String} {hop : Hop}
    (hl : w.chart.link v = some (r, hop)) {t : Term} (ht : σ row v = some t) :
    ∃ n, σ row r = some n ∧ data.Leads hop n t := by
  obtain hvF | ⟨r', hop', n, hl', hn, hlead⟩ := h.closed row hrow _ t ht
  · simp [hF _ hvF] at hl
  · obtain ⟨rfl, rfl⟩ : r' = r ∧ hop' = hop := by simpa using Option.some.inj (hl'.symm.trans hl)
    exact ⟨n, hn, hlead⟩

/-- In what follows all variables belong to the chart of one survey, and `F` holds the variables
that are reached from nowhere. -/
structure Grounds (schema : Schema) (data : Dataset) (w : Survey) (F : Set String) : Prop where
  accepted : schema.Accepted
  ownIds : schema.OwnIds
  conforms : Conforms schema data
  sound : w.Sound schema
  unlinked : ∀ v ∈ F, w.chart.link v = none

variable {q r : Place} {T t : EntityType} {p : Property}

theorem Grounds.value_link (hg : Grounds schema data w F) (hT : w.chart.kind q.var = some T)
    (hp : p ∈ T.properties) (hf : p.foreignKeyOf = none) {v : String}
    (hv : w.names.value? q p.name = some v) : w.chart.link v = some (q.var, p.valueHop) := by
  obtain ⟨-, hl⟩ | ⟨navigation, -, hk, -⟩ := hg.sound.value_of hg.accepted hT hp hv
  · exact hl
  · simp [hf] at hk

theorem Grounds.id_link (hg : Grounds schema data w F) (hT : w.chart.kind q.var = some T) {v : String}
    (hv : w.names.value? q idName = some v) :
    ∃ i ∈ T.properties, T.property? idName = some i ∧ i.isElementary = true ∧
      i.foreignKeyOf = none ∧ T.Requires schema i.valueHop ∧
      w.chart.link v = some (q.var, i.valueHop) := by
  have hTs := hg.sound.declared hT
  obtain ⟨i, hi, hname, hid, he, hmand⟩ := hg.accepted.id hTs
  have hf := hg.ownIds T hTs i hid
  exact ⟨i, hi, hid, he, hf, .value hi he hf hmand, hg.value_link hT hi hf (hname ▸ hv)⟩

theorem Account.agree_value (h : Account schema data w F σ rows) (hg : Grounds schema data w F)
    (hsame : ∀ row ∈ rows, ∀ row' ∈ rows, σ row q.var = σ row' q.var)
    (hT : w.chart.kind q.var = some T) (hp : p ∈ T.properties) (he : p.isElementary = true)
    (hf : p.foreignKeyOf = none) {v : String} (hl : w.chart.link v = some (q.var, p.valueHop)) :
    Row.Agree v rows := by
  intro row hrow row' hrow' a b ha hb
  obtain ⟨t, n, -, rfl, hn, hlead⟩ := h.follow hg.sound hg.unlinked hrow hl ha
  obtain ⟨t', n', -, rfl, hn', hlead'⟩ := h.follow hg.sound hg.unlinked hrow' hl hb
  obtain rfl : n = n' := by simpa [hn, hn'] using hsame row hrow row' hrow'
  rw [hg.conforms.value (h.good row hrow _ _ hn T hT) hp he hf hlead hlead']

theorem Account.agree_single (h : Account schema data w F σ rows) (hg : Grounds schema data w F)
    (hsame : ∀ row ∈ rows, ∀ row' ∈ rows, σ row q.var = σ row' q.var)
    (hT : w.chart.kind q.var = some T) (hp : p ∈ T.properties) (hsingle : p.isSingle = true)
    (hr : w.names.related? q p.name = some r) {v : String} (hv : w.names.value? r idName = some v) :
    Row.Agree v rows := by
  obtain ⟨he, t, hop, -, hh, hk, hl⟩ := hg.sound.related_of hg.accepted hT hp hr
  obtain ⟨i, hi, -, hielem, hif, -, hil⟩ := hg.id_link hk hv
  intro row hrow row' hrow' a b ha hb
  obtain ⟨x, m, -, rfl, hm, hx⟩ := h.follow hg.sound hg.unlinked hrow hil ha
  obtain ⟨y, m', -, rfl, hm', hy⟩ := h.follow hg.sound hg.unlinked hrow' hil hb
  obtain ⟨n, hn, hlead⟩ := h.followed hg.unlinked hrow hl hm
  obtain ⟨n', hn', hlead'⟩ := h.followed hg.unlinked hrow' hl hm'
  obtain rfl : n = n' := by simpa [hn, hn'] using hsame row hrow row' hrow'
  obtain rfl : m = m' :=
    hg.conforms.single (h.good row hrow _ _ hn T hT) hp he hsingle hh hlead hlead'
  rw [hg.conforms.value (h.good row hrow _ _ hm t hk) hi hielem hif hx hy]

theorem Account.same_of_group (h : Account schema data w F σ rows) (hg : Grounds schema data w F)
    (hT : w.chart.kind r.var = some T) {var : String} (hvar : w.names.value? r idName = some var)
    (id : String) : ∀ row ∈ Row.group var id rows, ∀ row' ∈ Row.group var id rows,
      σ row r.var = σ row' r.var := by
  intro row hrow row' hrow'
  obtain ⟨i, -, hid, -, -, -, hl⟩ := hg.id_link hT hvar
  obtain ⟨hrow, hb⟩ := List.mem_filter.mp hrow
  obtain ⟨hrow', hb'⟩ := List.mem_filter.mp hrow'
  obtain ⟨t, n, -, ht, hn, hlead⟩ := h.follow hg.sound hg.unlinked hrow hl (by simpa using hb)
  obtain ⟨t', n', -, ht', hn', hlead'⟩ := h.follow hg.sound hg.unlinked hrow' hl (by simpa using hb')
  rw [hn, hn', hg.conforms.id (h.good row hrow _ _ hn T hT) (h.good row' hrow' _ _ hn' T hT) hid hlead
    hlead' (ht.trans ht'.symm)]

theorem Account.consistent (hg : Grounds schema data w F) {expand : ExpandTree} {ps : List Property}
    {shape : Shape} (hshows : shape.Shows schema expand ps) (hps : ∀ p ∈ ps, p ∈ T.properties)
    (hT : w.chart.kind q.var = some T) {B : Body} (htracked : shape.Tracked w.names q B)
    (h : Account schema data w F σ rows)
    (hsame : ∀ row ∈ rows, ∀ row' ∈ rows, σ row q.var = σ row' q.var) :
    shape.Consistent w.names q rows := by
  induction hshows generalizing q T B rows with
  | nil => trivial
  | @value expand p ps rest he _ ih =>
      obtain ⟨hp, hps⟩ := List.forall_mem_cons.mp hps
      obtain ⟨⟨v, hv, -, hbinds⟩, hrest⟩ := htracked
      refine ⟨⟨v, hv, ?_⟩, ih hps hT hrest h hsame⟩
      obtain ⟨hf, -⟩ | ⟨navigation, r, hf, hr, hrv, -⟩ := hbinds
      · exact h.agree_value hg hsame hT hp he hf (hg.value_link hT hp hf hv)
      · obtain ⟨hnone, -⟩ | ⟨related, hrel, -, -, -, -, -, hf', -, hsingle, -⟩ :=
          hg.accepted.foreignKey? (hg.sound.declared hT) hp
        · simp [hf] at hnone
        · obtain rfl : navigation = related.name := Option.some.inj (hf.symm.trans hf')
          exact h.agree_single hg hsame hT hrel hsingle hr hrv
  | skip _ _ _ ih => exact ih (List.forall_mem_cons.mp hps).2 hT htracked h hsame
  | @navigation expand sub p t ps below rest he hc ht hbelow _ ihBelow ih =>
      obtain ⟨hp, hps⟩ := List.forall_mem_cons.mp hps
      obtain ⟨⟨r, inner, hr, hinner, -⟩, hrest⟩ := htracked
      obtain ⟨-, t', -, ht', -, hk, -⟩ := hg.sound.related_of hg.accepted hT hp hr
      obtain rfl : t = t' := Except.ok.inj (ht.symm.trans ht')
      obtain ⟨var, hvar, -⟩ := hbelow.tracked_id hg.accepted (hg.sound.declared hk) hinner
      refine ⟨⟨r, var, hr, hvar, fun hsingle => ?_, fun id => ?_⟩, ih hps hT hrest h hsame⟩
      · exact h.agree_single hg hsame hT hp hsingle hr hvar
      · exact ihBelow (fun _ h => h) hk hinner (h.subset List.filter_sublist.subset)
          (h.same_of_group hg hk hvar id)

end Account
end EntityGraph
