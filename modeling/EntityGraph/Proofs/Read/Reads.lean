import EntityGraph.Proofs.Read.Accounts
import Mathlib.Data.List.Nodup

/-!
# What is gathered from the rows is what is to be read

Rows that are complete at an entity show each of its values and each of its related entities, and
rows that give an account show nothing else. A related entity is the group of the rows that bind its
identifier; these rows are complete at the related entity, because a reading may be led there first
and then anywhere from there.
-/
namespace EntityGraph

open Sparql

variable {schema : Schema} {data : Dataset} {w : Survey} {F : Set String} {σ : Row → Assignment}
  {rows : List Row} {q r : Place} {T t : EntityType} {expand : ExpandTree} {ps : List Property}
  {shape : Shape} {B : Body} {ν₀ : Assignment} {n : Term}

@[simp] theorem variableNumber_var (q : Place) : variableNumber q.var = q.number :=
  variableNumber_variableName q.number

theorem Complete.self (h : Complete data w F q B ν₀ rows) (hν : w.chart.Reading data F ν₀)
    {vs : List String} (hvs : B.Binds vs) (hbound : ∀ v ∈ vs, (ν₀ v).isSome) :
    ∃ row ∈ rows, ∀ v ∈ vs, row.bound? v = (ν₀ v).map Term.text := by
  obtain ⟨row, hrow, hshown⟩ := h ν₀ hν (fun _ _ _ => rfl) vs hvs hbound
  exact ⟨row, hrow, fun v hv => hshown v (List.mem_cons_of_mem _ hv)⟩

theorem Complete.via (hg : Grounds schema data w F) (h : Complete data w F q B ν₀ rows)
    (hν : w.chart.Reading data F ν₀) (hn : ν₀ q.var = some n) {hop : Hop}
    (hl : w.chart.link r.var = some (q.var, hop)) {inner : Body}
    (hinner : ∀ ws, inner.Binds ws → B.Binds (r.var :: ws)) {m : Term} (hm : data.Leads hop n m) :
    ∃ ν₁, w.chart.Reading data F ν₁ ∧ ν₁ r.var = some m ∧ Complete data w F r inner ν₁ rows := by
  obtain ⟨ν₁, hν₁, hrm, hbefore⟩ := hν.exists_via hg.sound.ordered hl hn hm
  have hlt : q.number < r.number := by simpa using hg.sound.ordered.number_lt hl
  refine ⟨ν₁, hν₁, hrm, fun ν hreading hagree ws hws hbound => ?_⟩
  have hr : ν r.var = ν₁ r.var := hagree r.var (by simp) (by simp [hrm])
  have hearlier : ∀ v, variableNumber v ≤ q.number → (ν₀ v).isSome → ν v = ν₀ v := by
    intro v hv hsome
    have h₁ := hbefore v (by simpa using hv.trans_lt hlt) hsome
    calc ν v = ν₁ v := hagree v (hv.trans hlt.le) (by rwa [h₁])
      _ = ν₀ v := h₁
  obtain ⟨row, hrow, hshown⟩ := h ν hreading hearlier (r.var :: ws) (hinner ws hws)
    (List.forall_mem_cons.mpr ⟨by simp [hr, hrm], hbound⟩)
  exact ⟨row, hrow, fun v hv => hshown v (List.mem_cons_of_mem _ hv)⟩

theorem Complete.group (hg : Grounds schema data w F) (h : Complete data w F r B ν₀ rows)
    (hk : w.chart.kind r.var = some t) (hm : ν₀ r.var = some n) (hmember : Member schema data t n)
    {var : String} (hvar : w.names.value? r idName = some var) (hplain : var ∈ B.plainTargets)
    {i : Property} (hi : t.property? idName = some i) {a : Term} (ha : data.Leads i.valueHop n a) :
    Complete data w F r B ν₀ (Row.group var a.text rows) := by
  intro ν hν hagree vs hvs hbound
  obtain ⟨i', hmem, hi', helem, hf, -, hl⟩ := hg.id_link hk hvar
  obtain rfl : i = i' := Option.some.inj (hi.symm.trans hi')
  have hr : ν r.var = some n := (hagree r.var (by simp) (by simp [hm])).trans hm
  obtain ⟨b, hb⟩ := Option.isSome_iff_exists.mp (hν.saturated hl hr ha)
  have hab : b = a := by
    obtain hF | ⟨r', hop', n', hl', hn', hlead⟩ := hν.closed var b hb
    · simp [hg.unlinked var hF] at hl
    · obtain ⟨rfl, rfl⟩ : r' = r.var ∧ hop' = i.valueHop := by
        simpa using Option.some.inj (hl'.symm.trans hl)
      obtain rfl : n' = n := Option.some.inj (hn'.symm.trans hr)
      exact hg.conforms.value hmember hmem helem hf hlead ha
  subst hab
  obtain ⟨row, hrow, hshown⟩ := h ν hν hagree (var :: vs) (hvs.cons_plain hplain)
    (List.forall_mem_cons.mpr ⟨by simp [hb], hbound⟩)
  refine ⟨row, List.mem_filter.mpr ⟨hrow, ?_⟩, fun v hv => hshown v ?_⟩
  · simpa [hb] using hshown var (by simp)
  · obtain rfl | hv := List.mem_cons.mp hv
    · exact List.mem_cons_self
    · exact List.mem_cons_of_mem _ (List.mem_cons_of_mem _ hv)

theorem readsEach_map {sub : ExpandTree} {α : Type} {node : α → Term} {record : α → Record}
    {xs : List α} (h : ∀ x ∈ xs, ReadsFields schema data t sub (node x) t.properties (record x)) :
    ReadsEach schema data t sub (xs.map node) (xs.map record) := by
  induction xs with
  | nil => exact .nil
  | cons x xs ih =>
      obtain ⟨hx, hxs⟩ := List.forall_mem_cons.mp h
      exact .cons hx (ih hxs)

/-- What is gathered at `r` is what is to be read of the members that `P` holds of, if the rows show
only such members and are complete at each of them. -/
theorem readsEach_of_gathered (hg : Grounds schema data w F) (h : Account schema data w F σ rows)
    (hk : w.chart.kind r.var = some t) {sub : ExpandTree}
    (hshows : shape.Shows schema sub t.properties) (htracked : shape.Tracked w.names r B)
    {var : String} (hvar : w.names.value? r idName = some var) {coll : Collection}
    (hcoll : shape.Gathered w.names r var rows coll) {P : Term → Prop}
    (hmember : ∀ m, P m → Member schema data t m)
    (hshown : ∀ row ∈ rows, ∀ m, σ row r.var = some m → P m)
    (hcomplete : ∀ m, P m → ∃ ν₁, w.chart.Reading data F ν₁ ∧ ν₁ r.var = some m ∧
      Complete data w F r B ν₁ rows)
    (ih : ∀ {rows' m ν₁ entity}, Member schema data t m → Account schema data w F σ rows' →
      (∀ row ∈ rows', σ row r.var = some m) → w.chart.Reading data F ν₁ → ν₁ r.var = some m →
      Complete data w F r B ν₁ rows' → shape.Holds w.names r rows' entity →
        ReadsFields schema data t sub m t.properties (shape.record entity)) :
    ∃ ms : List Term, ms.Nodup ∧ (∀ m, m ∈ ms ↔ P m) ∧
      ReadsEach schema data t sub ms (coll.toList.map fun (_, child) => shape.record child) := by
  obtain ⟨i, himem, hi, hielem, hif, hreq, hl⟩ := hg.id_link hk hvar
  obtain ⟨var', hvar', hplain⟩ :=
    hshows.tracked_id hg.accepted (hg.sound.declared hk) htracked
  obtain rfl : var = var' := Option.some.inj (hvar.symm.trans hvar')
  obtain ⟨hnodup, hmem⟩ := Row.idsOf_spec var rows
  -- an identifier that is seen belongs to one member
  have hnode : ∀ id, id ∈ coll.ids → ∃ m a, P m ∧ data.Leads i.valueHop m a ∧ a.text = id := by
    intro id hid
    obtain ⟨row, hrow, hb⟩ := (hmem id).mp (hcoll.ids ▸ hid)
    obtain ⟨a, m, -, ha, hm, hlead⟩ := h.follow hg.sound hg.unlinked hrow hl hb
    exact ⟨m, a, hshown row hrow m hm, hlead, ha⟩
  choose! node value hP hlead htext using hnode
  have hids : ∀ m, P m → ∃ id ∈ coll.ids, node id = m := by
    intro m hm
    obtain ⟨ν₁, hν₁, hrm, hrows⟩ := hcomplete m hm
    obtain ⟨a, ha⟩ := hg.conforms.required (hmember m hm) hreq
    obtain ⟨row, hrow, -⟩ := (hrows.group hg hk hrm (hmember m hm) hvar hplain hi ha) ν₁ hν₁
      (fun _ _ _ => rfl) [] (.plain (by simp)) (by simp)
    obtain ⟨hrow, hb⟩ := List.mem_filter.mp hrow
    have hid : a.text ∈ coll.ids := hcoll.ids ▸ (hmem a.text).mpr ⟨row, hrow, by simpa using hb⟩
    exact ⟨a.text, hid, hg.conforms.id (hmember _ (hP _ hid)) (hmember m hm) hi (hlead _ hid) ha
      (htext _ hid)⟩
  refine ⟨coll.toList.map fun entry => node entry.1, ?_, fun m => ⟨fun hm => ?_, fun hm => ?_⟩, ?_⟩
  · have hmap : (coll.toList.map fun entry => node entry.1) = coll.ids.map node := by
      simp [Collection.ids]
    rw [hmap]
    refine List.Nodup.map_on (fun id hid id' hid' heq => ?_) (hcoll.ids ▸ hnodup)
    have hval := hg.conforms.value (hmember _ (hP id hid)) himem hielem hif (hlead id hid)
      (heq ▸ hlead id' hid')
    rw [← htext id hid, ← htext id' hid', hval]
  · obtain ⟨entry, hentry, rfl⟩ := List.mem_map.mp hm
    exact hP entry.1 (List.mem_map_of_mem hentry)
  · obtain ⟨id, hid, rfl⟩ := hids m hm
    obtain ⟨entry, hentry, rfl⟩ := List.mem_map.mp hid
    exact List.mem_map.mpr ⟨entry, hentry, rfl⟩
  · refine readsEach_map fun entry hentry => ?_
    have hid : entry.1 ∈ coll.ids := List.mem_map_of_mem hentry
    have hget := Collection.get?_of_mem_toList (hcoll.ids ▸ hnodup) hentry
    have hmem' := hmember _ (hP entry.1 hid)
    obtain ⟨ν₁, hν₁, hrm, hrows⟩ := hcomplete _ (hP entry.1 hid)
    have hgroup := hrows.group hg hk hrm hmem' hvar hplain hi (hlead entry.1 hid)
    rw [htext entry.1 hid] at hgroup
    refine ih hmem' (h.subset List.filter_sublist.subset) (fun row hrow => ?_) hν₁ hrm hgroup
      (hcoll.entities entry.1 entry.2 hget)
    obtain ⟨hrow, hb⟩ := List.mem_filter.mp hrow
    obtain ⟨a, m, -, ha, hm, hlead'⟩ := h.follow hg.sound hg.unlinked hrow hl (by simpa using hb)
    rw [hm, hg.conforms.id (h.good row hrow _ _ hm t hk) hmem' hi hlead' (hlead entry.1 hid)
      (ha.trans (htext entry.1 hid).symm)]

theorem Account.text_of_value (hg : Grounds schema data w F) (h : Account schema data w F σ rows)
    (hT : w.chart.kind q.var = some T) (hmember : Member schema data T n)
    (hat : ∀ row ∈ rows, σ row q.var = some n) (hν : w.chart.Reading data F ν₀)
    (hn : ν₀ q.var = some n) (hcomplete : Complete data w F q B ν₀ rows) {p : Property}
    (hp : p ∈ T.properties) (he : p.isElementary = true) (hf : p.foreignKeyOf = none) {v : String}
    (hv : w.names.value? q p.name = some v) (hbinds : B.Binds [v]) (s : String) :
    (rows.findSome? fun row => row.bound? v) = some s ↔
      ∃ a, data.Leads p.valueHop n a ∧ a.text = s := by
  have hl := hg.value_link hT hp hf hv
  have hsame : ∀ row ∈ rows, ∀ row' ∈ rows, σ row q.var = σ row' q.var :=
    fun row hrow row' hrow' => (hat row hrow).trans (hat row' hrow').symm
  have hagree := h.agree_value hg hsame hT hp he hf hl
  constructor
  · intro hs
    obtain ⟨row, hrow, hb⟩ := List.exists_of_findSome?_eq_some hs
    obtain ⟨a, n', -, ha, hn', hlead⟩ := h.follow hg.sound hg.unlinked hrow hl hb
    obtain rfl : n' = n := Option.some.inj (hn'.symm.trans (hat row hrow))
    exact ⟨a, hlead, ha⟩
  · rintro ⟨a, hlead, rfl⟩
    have hsome := hν.saturated hl hn hlead
    obtain ⟨row, hrow, hshown⟩ := hcomplete.self hν hbinds (by simpa using hsome)
    obtain ⟨b, hb⟩ := Option.isSome_iff_exists.mp hsome
    have hshown := hshown v List.mem_cons_self
    rw [hb, Option.map_some] at hshown
    obtain ⟨b', n', -, htext, hn', hlead'⟩ := h.follow hg.sound hg.unlinked hrow hl hshown
    obtain rfl : n' = n := Option.some.inj (hn'.symm.trans (hat row hrow))
    rw [Shape.findSome?_eq_of_agree hagree hrow hshown, ← htext,
      hg.conforms.value hmember hp he hf hlead' hlead]

theorem Account.text_of_foreignKey (hg : Grounds schema data w F) (h : Account schema data w F σ rows)
    (hT : w.chart.kind q.var = some T) (hmember : Member schema data T n)
    (hat : ∀ row ∈ rows, σ row q.var = some n) (hν : w.chart.Reading data F ν₀)
    (hn : ν₀ q.var = some n) (hcomplete : Complete data w F q B ν₀ rows) {related i : Property}
    (hrel : related ∈ T.properties) (hsingle : related.isSingle = true) {hop : Hop}
    (hh : schema.hop related = .ok hop) (ht : schema.targetType related = .ok t)
    (hi : t.property? idName = some i) (hr : w.names.related? q related.name = some r) {v : String}
    (hv : w.names.value? r idName = some v) (hbinds : B.Binds [r.var, v]) (s : String) :
    (rows.findSome? fun row => row.bound? v) = some s ↔
      ∃ m a, data.Leads hop n m ∧ data.Leads i.valueHop m a ∧ a.text = s := by
  obtain ⟨helem, t', hop', ht', hh', hk, hl⟩ := hg.sound.related_of hg.accepted hT hrel hr
  obtain rfl : t = t' := Except.ok.inj (ht.symm.trans ht')
  obtain rfl : hop = hop' := Except.ok.inj (hh.symm.trans hh')
  obtain ⟨i', himem, hi', hielem, hif, -, hil⟩ := hg.id_link hk hv
  obtain rfl : i = i' := Option.some.inj (hi.symm.trans hi')
  have hsame : ∀ row ∈ rows, ∀ row' ∈ rows, σ row q.var = σ row' q.var :=
    fun row hrow row' hrow' => (hat row hrow).trans (hat row' hrow').symm
  have hagree := h.agree_single hg hsame hT hrel hsingle hr hv
  -- where a row shows the identifier, it shows the way to it
  have hway : ∀ row ∈ rows, ∀ s, row.bound? v = some s →
      ∃ m a, data.Leads hop n m ∧ data.Leads i.valueHop m a ∧ a.text = s := by
    intro row hrow s hb
    obtain ⟨a, m, -, ha, hm, hlead⟩ := h.follow hg.sound hg.unlinked hrow hil hb
    obtain ⟨n', hn', hlead'⟩ := h.followed hg.unlinked hrow hl hm
    obtain rfl : n' = n := Option.some.inj (hn'.symm.trans (hat row hrow))
    exact ⟨m, a, hlead', hlead, ha⟩
  constructor
  · intro hs
    obtain ⟨row, hrow, hb⟩ := List.exists_of_findSome?_eq_some hs
    exact hway row hrow s hb
  · rintro ⟨m, a, hlead, hleada, rfl⟩
    obtain ⟨m', hm'⟩ := Option.isSome_iff_exists.mp (hν.saturated hl hn hlead)
    obtain hF | ⟨r', hop', n', hl', hn', hlead'⟩ := hν.closed r.var m' hm'
    · simp [hg.unlinked _ hF] at hl
    obtain ⟨rfl, rfl⟩ : r' = q.var ∧ hop' = hop := by simpa using Option.some.inj (hl'.symm.trans hl)
    obtain rfl : n' = n := Option.some.inj (hn'.symm.trans hn)
    obtain rfl := hg.conforms.single hmember hrel helem hsingle hh hlead hlead'
    have hsome := hν.saturated hil hm' hleada
    obtain ⟨row, hrow, hshown⟩ := hcomplete.self hν hbinds (by simp [hm', hsome])
    obtain ⟨b, hb⟩ := Option.isSome_iff_exists.mp hsome
    have hshown := hshown v (by simp)
    rw [hb, Option.map_some] at hshown
    obtain ⟨m'', a', hlead'', hleada', htext⟩ := hway row hrow _ hshown
    obtain rfl := hg.conforms.single hmember hrel helem hsingle hh hlead hlead''
    have hmm : Member schema data t m := .related hmember hrel helem ht hh hlead
    rw [Shape.findSome?_eq_of_agree hagree hrow hshown, ← htext,
      hg.conforms.value hmm himem hielem hif hleada' hleada]

/-- An entity that holds what complete rows say reads as the member that they are about. -/
theorem readsFields_of_holds (hg : Grounds schema data w F)
    (hshows : shape.Shows schema expand ps) (hps : ∀ p ∈ ps, p ∈ T.properties)
    (hT : w.chart.kind q.var = some T) (htracked : shape.Tracked w.names q B)
    (hmember : Member schema data T n) (h : Account schema data w F σ rows)
    (hat : ∀ row ∈ rows, σ row q.var = some n) (hν : w.chart.Reading data F ν₀)
    (hn : ν₀ q.var = some n) (hcomplete : Complete data w F q B ν₀ rows) {entity : Entity}
    (hholds : shape.Holds w.names q rows entity) :
    ReadsFields schema data T expand n ps (shape.record entity) := by
  induction hshows generalizing q T B rows n ν₀ entity with
  | nil => exact .nil
  | @value expand p ps rest he _ ih =>
      obtain ⟨hp, hps⟩ := List.forall_mem_cons.mp hps
      obtain ⟨⟨v, hv, -, hbinds⟩, htracked⟩ := htracked
      obtain ⟨⟨v', hv', htext⟩, hholds⟩ := hholds
      obtain rfl : v = v' := Option.some.inj (hv.symm.trans hv')
      have hrest := ih hps hT htracked hmember h hat hν hn hcomplete hholds
      unfold Shape.record
      rw [htext]
      obtain ⟨hf, hbinds⟩ | ⟨navigation, r, hf, hr, hrv, hbinds⟩ := hbinds
      · exact .value he hf
          (h.text_of_value hg hT hmember hat hν hn hcomplete hp he hf hv hbinds) hrest
      · obtain ⟨hnone, -⟩ | ⟨related, hrel, t, -, i, -, -, hf', -, hsingle, ht, hi, -⟩ :=
          hg.accepted.foreignKey? (hg.sound.declared hT) hp
        · simp [hf] at hnone
        · obtain rfl : navigation = related.name := Option.some.inj (hf.symm.trans hf')
          obtain ⟨hop, hh⟩ := hg.accepted.hop (hg.sound.declared hT) hrel
          exact .foreignKey he hrel hf hh ht hi (h.text_of_foreignKey hg hT hmember hat hν hn hcomplete
            hrel hsingle hh ht hi hr hrv hbinds) hrest
  | skip he hc _ ih =>
      exact .unexpanded he hc
        (ih (List.forall_mem_cons.mp hps).2 hT htracked hmember h hat hν hn hcomplete hholds)
  | @navigation expand sub p t ps below rest he hc ht hbelow _ ihBelow ih =>
      obtain ⟨hp, hps⟩ := List.forall_mem_cons.mp hps
      obtain ⟨⟨r, inner, hr, hinner, hbinds⟩, htracked⟩ := htracked
      obtain ⟨⟨r', var, hr', hvar, hids, hchildren⟩, hholds⟩ := hholds
      obtain rfl : r = r' := Option.some.inj (hr.symm.trans hr')
      obtain ⟨-, t', hop, ht', hh, hk, hl⟩ := hg.sound.related_of hg.accepted hT hp hr
      obtain rfl : t = t' := Except.ok.inj (ht.symm.trans ht')
      have hrest := ih hps hT htracked hmember h hat hν hn hcomplete hholds
      obtain ⟨ms, hnodup, hms, heach⟩ := readsEach_of_gathered (P := fun m => data.Leads hop n m) hg h hk
        hbelow hinner hvar ⟨hids, hchildren⟩ (fun m hm => .related hmember hp he ht hh hm)
        (fun row hrow m hm => by
          obtain ⟨n', hn', hlead⟩ := h.followed hg.unlinked hrow hl hm
          rwa [Option.some.inj (hn'.symm.trans (hat row hrow))] at hlead)
        (fun m hm => hcomplete.via hg hν hn hl hbinds hm)
        fun hmem hacc hat' hν' hn' hc' hh' => ihBelow (fun _ h => h) hk hinner hmem hacc hat' hν' hn' hc' hh'
      unfold Shape.record
      cases hsingle : p.isSingle with
      | false => simpa [hsingle] using .many he hsingle hc hh ht hnodup hms heach hrest
      | true =>
          simp only [if_true]
          generalize (entity.items p.name).toList.map (fun x => below.record x.2) = children at heach ⊢
          cases heach with
          | nil => exact .absent he hsingle hc hh (fun m hm => by simpa using (hms m).mpr hm) hrest
          | @cons _ _ m ms child children hchild _ =>
              exact .single he hsingle hc hh ht ((hms m).mp List.mem_cons_self) hchild hrest

end EntityGraph
