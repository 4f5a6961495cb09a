import EntityGraph.Proofs.Results.Chains

/-!
# Decoding undoes flattening

A forest can be flattened into rows: each row binds some of the values along a chain of the forest, and
every value is bound by some row together with the identifiers of its entity and of all entities above.
How the values are spread over the rows, in what order the rows come and which of them are repeated is
left open. Decoding such rows, with the names that the read was compiled with, gives back the forest up
to the order of arrays: nothing is lost, doubled or attached to another entity.
-/
namespace EntityGraph

/-- Rows along the chains of a forest, in which all that the forest says is said. -/
structure Row.Flatten (names : Naming) (root : Place) (forest : List Record) (rows : List Row) : Prop where
  along : ∀ row ∈ rows, row.Along names root forest
  covered : ∀ id, ∀ fact ∈ Record.facts forest id,
    ∃ row ∈ rows, row.Identifies names root id ∧ fact ∈ row.facts names root

variable {schema : Schema} {T : EntityType} {expand : ExpandTree} {names : Naming} {pattern : Pattern}
  {shape : Shape} {forest : List Record} {rows : List Row}

theorem Row.Flatten.heard_eq {source : Nat → Option (Place × String)} {root : Place}
    (h : Row.Flatten names root forest rows) (hsource : names.Sourced source)
    (hroot : source root.number = none) (howns : ∃ v, names.Owns source root idName v)
    (hanchored : shape.Anchored names source root) (hd : shape.Distinct)
    (hidentified : Record.Identified forest) (hdescribes : ∀ record ∈ forest, shape.Describes record)
    (id : String) : Shape.heard names rows shape root id = Record.facts forest id := by
  apply Set.Subset.antisymm
  · rintro fact ⟨row, hrow, htold⟩
    exact (h.along row hrow).toldOf_subset hsource hroot howns hanchored hd hidentified hdescribes id htold
  · intro fact hfact
    obtain ⟨row, hrow, hid, hsaid⟩ := h.covered id fact hfact
    obtain ⟨record, hrecord, -, hrecordSays⟩ := hfact
    exact ⟨row, hrow, hid, hsaid, (hdescribes record hrecord).admits hrecordSays⟩

theorem Record.Identified.sole (h : Record.Identified forest) (hd : shape.Distinct)
    (hdescribes : ∀ record ∈ forest, shape.Describes record) (id : String) :
    shape.Sole ((Record.collection forest).facts id) := by
  cases hget : (Record.collection forest).get? id with
  | none =>
      apply (Shape.sole_empty shape).mono
      rintro fact ⟨entity, hentity, -⟩
      simp [hget] at hentity
  | some entity =>
      obtain ⟨record, hrecord, -, rfl⟩ := h.get?_iff.mp hget
      rw [Collection.facts_eq hget]
      exact (hdescribes record hrecord).sole hd

/-- Decoding undoes flattening: rows into which a forest of the read entities is flattened are decoded to
that forest, up to the order of arrays. -/
theorem ExpandTree.decode_flatten (hs : schema.Accepted) (hids : schema.OwnIds) (hT : T ∈ schema.types)
    (hc : expand.compile schema Rule.builtin T Reader.startingPosition.1 Reader.startingPosition.2 =
      .ok (pattern, names))
    (hshape : Shape.Shows schema expand T.properties shape) (hidentified : Record.Identified forest)
    (hdescribes : ∀ record ∈ forest, shape.Describes record)
    (hrows : Row.Flatten names Reader.startingPosition.1.place forest rows) :
    ∃ records, decode schema names T expand Reader.startingPosition.1.place rows = .ok records ∧
      Record.Rearranged forest records := by
  obtain ⟨shape', source, hshape', hsource, hroot, howns, hanchored⟩ := compile_anchored hs hids hT hc
  obtain rfl := (Shape.shows_ofExpand hs hT hshape').unique hshape
  have hd := hshape.distinct hs hT (List.suffix_refl _)
  have hfacts : ∀ id, (Record.collection forest).facts id =
      Shape.heard names rows shape' Reader.startingPosition.1.place id := fun id => by
    rw [hidentified.facts_collection hdescribes,
      hrows.heard_eq hsource hroot howns hanchored hd hidentified hdescribes]
  have hsole := hidentified.sole hd hdescribes
  have hlegible : ∀ row ∈ rows, Shape.Legible names row shape' Reader.startingPosition.1.place :=
    fun row _ => ⟨howns.imp fun _ hv => hv.1, fun _ _ => hanchored.readable row⟩
  obtain ⟨coll, hcollect⟩ := Shape.exists_collect hlegible
    (fun id => hfacts id ▸ Collection.agreeing_facts _ id) (fun id => hfacts id ▸ hsole id) T.name
  have hcoll := Shape.collects_of_collect hcollect
  refine ⟨shape'.records coll, by rw [decode_eq_collect hshape', hcollect]; rfl, ?_⟩
  have hrearranged := Shape.records_rearranged (hidentified.tidy hdescribes) hcoll.tidy
    (fun id => by rw [hfacts, hcoll.facts]) hsole
  rwa [Shape.records_collection hd hdescribes] at hrearranged

namespace Sample

def wholeNames : Naming where
  next := 8
  values := [((⟨0⟩, "Id"), "?x1"), ((⟨0⟩, "Label"), "?x2"), ((⟨3⟩, "Id"), "?x4"), ((⟨3⟩, "Label"), "?x5"),
    ((⟨6⟩, "Id"), "?x7"), ((⟨3⟩, "WholeId"), "?x7"), ((⟨0⟩, "WholeId"), "?x4")]
  related := [((⟨0⟩, "Whole"), ⟨3⟩), ((⟨3⟩, "Whole"), ⟨6⟩)]
  chains := 1

def wholeRecord : Record := .value "Id" (some "9") (.value "Label" none (.value "WholeId" none .nil))

def partRecord : Record :=
  .value "Id" (some "1") (.value "Label" (some "part")
    (.single "Whole" wholeRecord (.value "WholeId" (some "9") .nil)))

def partRows : List Row :=
  [Row.ofPairs [("x1", "1"), ("x2", "part")], Row.ofPairs [("x1", "1"), ("x4", "9")]]

theorem value?_wholeNames {q : Place} {name var : String} (h : wholeNames.value? q name = some var) :
    var ∈ ["?x1", "?x2", "?x4", "?x5", "?x7"] := by
  obtain ⟨l, l', heq, -⟩ := List.lookup_eq_some_iff.mp h
  have hmem : ((q, name), var) ∈ wholeNames.values := by rw [heq]; simp
  simp only [wholeNames, List.mem_cons, Prod.mk.injEq, List.not_mem_nil, or_false] at hmem
  simp only [List.mem_cons, List.not_mem_nil, or_false]
  tauto

theorem along {row : Row} (hrow : row ∈ partRows) : row.Along wholeNames ⟨0⟩ [partRecord] := by
  refine ⟨"1", [], fun var text hname hbound => ?_⟩
  obtain ⟨q, name, hname⟩ := hname
  have hvalues : ∀ row ∈ partRows, ∀ var ∈ ["?x1", "?x2", "?x4", "?x5", "?x7"], row.bound? var = none ∨
      ∃ name ∈ ["Id", "Label", "WholeId"], wholeNames.value? ⟨0⟩ name = some var ∧
        partRecord.text? name = row.bound? var := by decide
  obtain hnone | ⟨name, -, hvar, htext⟩ := hvalues row hrow var (value?_wholeNames hname)
  · simp [hnone] at hbound
  · exact ⟨[], ⟨0⟩, name, List.prefix_refl _, rfl, hvar, partRecord, List.mem_singleton_self _, by decide,
      htext.trans hbound⟩

theorem covered (id : String) : ∀ fact ∈ Record.facts [partRecord] id,
    ∃ row ∈ partRows, row.Identifies wholeNames ⟨0⟩ id ∧ fact ∈ row.facts wholeNames ⟨0⟩ := by
  rintro ⟨path, fact⟩ ⟨record, hrecord, hid, hsaid⟩
  obtain rfl := List.mem_singleton.mp hrecord
  obtain rfl : "1" = id := by simpa [partRecord, Record.text?, idName] using hid
  have hrows : ∀ row ∈ partRows, row.Identifies wholeNames ⟨0⟩ "1" := by
    intro row hrow
    refine ⟨"?x1", rfl, ?_⟩
    revert row
    decide
  -- the first row has the label, the second one the identifier of the whole
  have hfirst : partRows[0] ∈ partRows := List.getElem_mem _
  have hsecond : partRows[1] ∈ partRows := List.getElem_mem _
  rcases path with _ | ⟨⟨step, id⟩, path⟩
  · obtain _ | ⟨name, text⟩ := fact
    · exact ⟨_, hfirst, hrows _ hfirst, trivial⟩
    · simp only [Record.Says, partRecord, Record.text?, Option.some_or] at hsaid
      split_ifs at hsaid with hId hLabel hKey
      · subst hId
        exact ⟨_, hfirst, hrows _ hfirst, "?x1", rfl, hsaid⟩
      · subst hLabel
        exact ⟨_, hfirst, hrows _ hfirst, "?x2", rfl, hsaid⟩
      · subst hKey
        exact ⟨_, hsecond, hrows _ hsecond, "?x4", rfl, hsaid⟩
  · obtain ⟨child, hchild, hid, hsaid⟩ := hsaid
    simp only [partRecord, Record.children] at hchild
    split_ifs at hchild with hstep
    · subst hstep
      obtain rfl := List.mem_singleton.mp hchild
      obtain rfl : "9" = id := by simpa [wholeRecord, Record.text?, idName] using hid
      refine ⟨_, hsecond, hrows _ hsecond, ⟨3⟩, rfl, ⟨"?x4", rfl, rfl⟩, ?_⟩
      rcases path with _ | ⟨step, path⟩
      · obtain _ | ⟨name, text⟩ := fact
        · trivial
        · simp only [Record.Says, wholeRecord, Record.text?, Option.some_or, Option.none_or] at hsaid
          split_ifs at hsaid with hId
          · subst hId
            exact ⟨"?x4", rfl, hsaid⟩
      · obtain ⟨child, hchild, -⟩ := hsaid
        simp [wholeRecord, Record.children] at hchild
    · simp at hchild

theorem flatten : Row.Flatten wholeNames ⟨0⟩ [partRecord] partRows :=
  ⟨fun _ hrow => along hrow, covered⟩

theorem same_keys {shape : Shape} {record : Record}
    (h : ∀ p ∈ shape.values, p.foreignKeyOf ≠ none → p.name = "WholeId") :
    ∀ p ∈ shape.values, ∀ p' ∈ shape.values, ∀ navigation, p.foreignKeyOf = some navigation →
      p'.foreignKeyOf = some navigation → record.text? p.name = record.text? p'.name := by
  intro p hp p' hp' navigation hf hf'
  rw [h p hp (by simp [hf]), h p' hp' (by simp [hf'])]

theorem describes : ∃ shape, Shape.ofExpand Sample.schema thing (.cons "Whole" .nil .nil) = .ok shape ∧
    shape.Describes partRecord := by
  obtain ⟨below, hbelow, hwhole⟩ : ∃ below, Shape.ofExpand Sample.schema thing .nil = .ok below ∧
      below.Describes wholeRecord := by
    refine ⟨_, rfl, .intro (.value (.value (.value .nil))) (same_keys (by decide)) ?_ ?_ ?_⟩
    · exact fun _ _ _ hnavigation => absurd hnavigation List.not_mem_nil
    · exact fun _ hnavigation => absurd hnavigation List.not_mem_nil
    · exact fun _ hnavigation => absurd hnavigation List.not_mem_nil
  obtain rfl : below = _ := (Except.ok.inj hbelow).symm
  refine ⟨_, rfl, ?_⟩
  refine .intro (.value (.value (.single rfl (.value .nil)))) (same_keys (by decide)) ?_ ?_ ?_
  · intro p hp navigation hnavigation hf
    obtain rfl := List.mem_singleton.mp hnavigation
    have hname : p.name = "WholeId" := by
      revert p
      decide
    rw [hname]
    refine ⟨fun child hchild => ?_, nofun⟩
    obtain rfl := List.mem_singleton.mp hchild
    rfl
  · intro navigation hnavigation
    obtain rfl := List.mem_singleton.mp hnavigation
    exact ⟨by simp [partRecord, wholeRecord, Record.children, Record.text?, idName], List.nodup_singleton _⟩
  · intro navigation hnavigation child hchild
    obtain rfl := List.mem_singleton.mp hnavigation
    obtain rfl := List.mem_singleton.mp hchild
    exact hwhole

end Sample

/-- A thing with its whole, from a row of its own values and a row of its foreign key. -/
theorem ExpandTree.decode_flatten_sample :
    Sample.schema.Accepted ∧ Sample.schema.OwnIds ∧ Sample.thing ∈ Sample.schema.types ∧ ∃ pattern shape,
      (ExpandTree.cons "Whole" .nil .nil).compile Sample.schema Rule.builtin Sample.thing
        Reader.startingPosition.1 Reader.startingPosition.2 = .ok (pattern, Sample.wholeNames) ∧
      Shape.Shows Sample.schema (.cons "Whole" .nil .nil) Sample.thing.properties shape ∧
      Record.Identified [Sample.partRecord] ∧ (∀ record ∈ [Sample.partRecord], shape.Describes record) ∧
      Row.Flatten Sample.wholeNames Reader.startingPosition.1.place [Sample.partRecord] Sample.partRows ∧
      ∃ records, decode Sample.schema Sample.wholeNames Sample.thing (.cons "Whole" .nil .nil)
        Reader.startingPosition.1.place Sample.partRows = .ok records ∧
        Record.Rearranged [Sample.partRecord] records := by
  obtain ⟨pattern, hc⟩ : ∃ pattern, (ExpandTree.cons "Whole" .nil .nil).compile Sample.schema Rule.builtin
      Sample.thing Reader.startingPosition.1 Reader.startingPosition.2 = .ok (pattern, Sample.wholeNames) :=
    ⟨_, rfl⟩
  obtain ⟨shape, hshape, hpart⟩ := Sample.describes
  have hshows := Shape.shows_ofExpand Sample.accepted List.mem_cons_self hshape
  have hidentified : Record.Identified [Sample.partRecord] :=
    ⟨by simp [Sample.partRecord, Record.text?, idName], List.nodup_singleton _⟩
  have hdescribes : ∀ record ∈ [Sample.partRecord], shape.Describes record := by
    simpa using hpart
  exact ⟨Sample.accepted, Sample.ownIds, List.mem_cons_self, pattern, shape, hc, hshows,
    hidentified, hdescribes,
    Sample.flatten, decode_flatten Sample.accepted Sample.ownIds List.mem_cons_self hc hshows hidentified
      hdescribes Sample.flatten⟩

end EntityGraph
