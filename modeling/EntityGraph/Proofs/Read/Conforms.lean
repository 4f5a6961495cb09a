import EntityGraph.Proofs.Algebra.Clause
import EntityGraph.Proofs.Expand.Shows
import EntityGraph.Proofs.Pattern.Reading
import EntityGraph.Results.Record

/-!
# Data that conform to a schema, and what is read of them

The instances of a type are the terms that have its class, if it declares one, and an identifier.
The members of the types are the instances and whatever is reached from a member over an edge of a
navigation property. In data that conform to a schema every member has the edges that the schema
requires, at most one value under each elementary property and at most one related member under
each single-valued navigation property; and members of one type have different identifiers.

`ReadsEach` says what records are to be read of members, without regard to how they are read.
-/
namespace EntityGraph

open Sparql

/-- The edge to the values of an elementary property. -/
def Property.valueHop (p : Property) : Hop := ⟨p.predicate, false⟩

def EntityType.Instance (data : Dataset) (T : EntityType) (n : Term) : Prop :=
  (∀ c, T.rdfClass = some c → ⟨n, data.resolve "rdf:type", data.resolve c⟩ ∈ data.statements) ∧
    ∃ i t, T.property? idName = some i ∧ data.Leads i.valueHop n t

inductive Member (schema : Schema) (data : Dataset) : EntityType → Term → Prop
  | of_instance {T : EntityType} {n : Term} (hT : T ∈ schema.types) (h : T.Instance data n) :
      Member schema data T n
  | related {T t : EntityType} {n m : Term} {p : Property} {h : Hop} (hn : Member schema data T n)
      (hp : p ∈ T.properties) (he : p.isElementary = false) (ht : schema.targetType p = .ok t)
      (hh : schema.hop p = .ok h) (hl : data.Leads h n m) : Member schema data t m

structure Conforms (schema : Schema) (data : Dataset) : Prop where
  required : ∀ {T n h}, Member schema data T n → T.Requires schema h → ∃ m, data.Leads h n m
  value : ∀ {T n p a b}, Member schema data T n → p ∈ T.properties → p.isElementary = true →
    p.foreignKeyOf = none → data.Leads p.valueHop n a → data.Leads p.valueHop n b → a = b
  single : ∀ {T n p h a b}, Member schema data T n → p ∈ T.properties → p.isElementary = false →
    p.isSingle = true → schema.hop p = .ok h → data.Leads h n a → data.Leads h n b → a = b
  id : ∀ {T n m i a b}, Member schema data T n → Member schema data T m →
    T.property? idName = some i → data.Leads i.valueHop n a → data.Leads i.valueHop m b →
      a.text = b.text → n = m

mutual

/-- The fields of a record are what the data have under these properties of an entity. -/
inductive ReadsFields (schema : Schema) (data : Dataset) :
    EntityType → ExpandTree → Term → List Property → Record → Prop
  | nil {T : EntityType} {expand : ExpandTree} {n : Term} : ReadsFields schema data T expand n [] .nil
  | value {T : EntityType} {expand : ExpandTree} {n : Term} {p : Property} {ps : List Property}
      {text : Option String} {rest : Record} (he : p.isElementary = true) (hf : p.foreignKeyOf = none)
      (htext : ∀ s, text = some s ↔ ∃ a, data.Leads p.valueHop n a ∧ a.text = s)
      (h : ReadsFields schema data T expand n ps rest) :
      ReadsFields schema data T expand n (p :: ps) (.value p.name text rest)
  | foreignKey {T t : EntityType} {expand : ExpandTree} {n : Term} {p related i : Property}
      {ps : List Property} {hop : Hop} {text : Option String} {rest : Record}
      (he : p.isElementary = true) (hr : related ∈ T.properties)
      (hf : p.foreignKeyOf = some related.name) (hh : schema.hop related = .ok hop)
      (ht : schema.targetType related = .ok t) (hi : t.property? idName = some i)
      (htext : ∀ s, text = some s ↔ ∃ m a, data.Leads hop n m ∧ data.Leads i.valueHop m a ∧ a.text = s)
      (h : ReadsFields schema data T expand n ps rest) :
      ReadsFields schema data T expand n (p :: ps) (.value p.name text rest)
  | unexpanded {T : EntityType} {expand : ExpandTree} {n : Term} {p : Property} {ps : List Property}
      {record : Record} (he : p.isElementary = false) (hc : expand.child? p.name = none)
      (h : ReadsFields schema data T expand n ps record) :
      ReadsFields schema data T expand n (p :: ps) record
  | absent {T : EntityType} {expand sub : ExpandTree} {n : Term} {p : Property} {ps : List Property}
      {hop : Hop} {rest : Record} (he : p.isElementary = false) (hs : p.isSingle = true)
      (hc : expand.child? p.name = some sub) (hh : schema.hop p = .ok hop)
      (hnone : ∀ m, ¬ data.Leads hop n m) (h : ReadsFields schema data T expand n ps rest) :
      ReadsFields schema data T expand n (p :: ps) (.absent p.name rest)
  | single {T t : EntityType} {expand sub : ExpandTree} {n m : Term} {p : Property}
      {ps : List Property} {hop : Hop} {child rest : Record} (he : p.isElementary = false)
      (hs : p.isSingle = true) (hc : expand.child? p.name = some sub) (hh : schema.hop p = .ok hop)
      (ht : schema.targetType p = .ok t) (hm : data.Leads hop n m)
      (hchild : ReadsFields schema data t sub m t.properties child)
      (h : ReadsFields schema data T expand n ps rest) :
      ReadsFields schema data T expand n (p :: ps) (.single p.name child rest)
  | many {T t : EntityType} {expand sub : ExpandTree} {n : Term} {p : Property} {ps : List Property}
      {hop : Hop} {ms : List Term} {children : List Record} {rest : Record}
      (he : p.isElementary = false) (hs : p.isSingle = false) (hc : expand.child? p.name = some sub)
      (hh : schema.hop p = .ok hop) (ht : schema.targetType p = .ok t) (hnodup : ms.Nodup)
      (hms : ∀ m, m ∈ ms ↔ data.Leads hop n m) (hchildren : ReadsEach schema data t sub ms children)
      (h : ReadsFields schema data T expand n ps rest) :
      ReadsFields schema data T expand n (p :: ps) (.many p.name children rest)

/-- The records are those of the entities, one after the other. -/
inductive ReadsEach (schema : Schema) (data : Dataset) :
    EntityType → ExpandTree → List Term → List Record → Prop
  | nil {T : EntityType} {expand : ExpandTree} : ReadsEach schema data T expand [] []
  | cons {T : EntityType} {expand : ExpandTree} {n : Term} {ns : List Term} {record : Record}
      {records : List Record} (h : ReadsFields schema data T expand n T.properties record)
      (hs : ReadsEach schema data T expand ns records) :
      ReadsEach schema data T expand (n :: ns) (record :: records)

end

section Members

variable {schema : Schema} {data : Dataset}

theorem Member.declared (hs : schema.Accepted) {T : EntityType} {n : Term}
    (h : Member schema data T n) : T ∈ schema.types := by
  induction h with
  | of_instance hT _ => exact hT
  | related _ hp he ht _ _ ih =>
      obtain ⟨t, hmem, htarget⟩ := hs.targetType ih hp he
      rwa [Except.ok.inj (ht.symm.trans htarget)]

/-- What a variable may be bound to: members of the type that the chart gives it. -/
def Chart.Good (schema : Schema) (data : Dataset) (chart : Chart) (v : String) (n : Term) : Prop :=
  ∀ T, chart.kind v = some T → Member schema data T n

theorem Chart.Proper.good_step {chart : Chart} (hc : chart.Proper schema) {v r : String} {h : Hop}
    {n m : Term} (hl : chart.link v = some (r, h)) (hn : chart.Good schema data r n)
    (hm : data.Leads h n m) : chart.Good schema data v m := by
  obtain ⟨T, hT, hedge⟩ := hc.edge hl
  intro t ht
  rw [ht] at hedge
  cases hedge with
  | related hp he ht hh => exact .related (hn T hT) hp he ht hh hm

/-- In conforming data a pattern that is laid on the chart has its plain edges everywhere. -/
theorem Body.Each.supplied {chart : Chart} {L : Outlook} {B : Body} {root : String}
    (hdata : Conforms schema data) (h : B.Each (laid schema chart L) root) :
    B.Each (Body.supplied data (chart.Good schema data)) root := by
  refine h.mono (fun _ _ _ hfalse => hfalse.elim) (fun r e he hopt n hn => ?_) fun _ _ _ => trivial
  obtain ⟨T, hT, hreq⟩ := he.2 hopt
  exact hdata.required (hn T hT) hreq

end Members

namespace Sample

def idProperty : Property := { name := "Id", target := "Edm.Int32", predicate := "ex:id" }

def thing : EntityType where
  name := "Thing"
  rdfClass := some "ex:Thing"
  properties := [
    idProperty,
    { name := "Label", target := "Edm.String", predicate := "ex:label", isOptional := true },
    { name := "Whole", target := "Thing", predicate := "ex:whole", isOptional := true },
    { name := "WholeId", target := "Edm.Int32", predicate := "ex:wholeId", isOptional := true,
      foreignKeyOf := some "Whole" },
    { name := "Parts", target := "Thing", predicate := "ex:part", cardinality := .many,
      inverseOf := some "Whole" }]

def schema : Schema where
  prefixes := [("ex", "http://example.org/"), ("rdf", Schema.rdfNamespace)]
  types := [thing]
  sets := [("Things", "Thing")]

def whole : Term := .iri "ex:whole"

def part : Term := .iri "ex:part"

def data : Dataset where
  statements := [
    ⟨whole, .iri "rdf:type", .iri "ex:Thing"⟩,
    ⟨whole, .iri "ex:id", .ofNumeral "1"⟩,
    ⟨part, .iri "rdf:type", .iri "ex:Thing"⟩,
    ⟨part, .iri "ex:id", .ofNumeral "2"⟩,
    ⟨part, .iri "ex:label", .ofString "part"⟩,
    ⟨part, .iri "ex:whole", whole⟩]
  resolve := .iri

def operators : Operators where
  equal a b := some (decide (a = b))
  truth t := if t = .ofBool true then some true else if t = .ofBool false then some false else none
  truth_ofBool b := by cases b <;> decide

theorem accepted : schema.Accepted :=
  ⟨[("ex", "http://example.org/")], [thing], [("Things", "Thing")], by decide, by decide +kernel⟩

theorem thing_id : thing.property? idName = some idProperty := by decide

theorem ownIds : schema.OwnIds := by
  intro T hT i hi
  obtain rfl : T = thing := List.mem_singleton.mp hT
  obtain rfl := Option.some.inj (hi.symm.trans thing_id)
  rfl

theorem navigation {p : Property} (hp : p ∈ thing.properties) (he : p.isElementary = false) :
    schema.targetType p = .ok thing ∧
      (schema.hop p = .ok ⟨"ex:whole", false⟩ ∨ schema.hop p = .ok ⟨"ex:whole", true⟩ ∧
        p.isSingle = false) := by
  revert p
  decide

theorem elementary {p : Property} (hp : p ∈ thing.properties) (he : p.isElementary = true)
    (hf : p.foreignKeyOf = none) : p.predicate = "ex:id" ∨ p.predicate = "ex:label" ∧
    p.isMandatory = false := by
  revert p
  decide

theorem leads_whole {n m : Term} : data.Leads ⟨"ex:whole", false⟩ n m ↔ n = part ∧ m = whole := by
  simp [Dataset.Leads, data]

theorem leads_part {n m : Term} : data.Leads ⟨"ex:whole", true⟩ n m ↔ m = part ∧ n = whole := by
  simp [Dataset.Leads, data]

theorem leads_id {n m : Term} : data.Leads ⟨"ex:id", false⟩ n m ↔
    n = whole ∧ m = .ofNumeral "1" ∨ n = part ∧ m = .ofNumeral "2" := by
  simp [Dataset.Leads, data]

theorem leads_label {n m : Term} : data.Leads ⟨"ex:label", false⟩ n m ↔ n = part ∧ m = .ofString "part" := by
  simp [Dataset.Leads, data]

theorem member_cases {T : EntityType} {n : Term} (h : Member schema data T n) :
    T = thing ∧ (n = whole ∨ n = part) := by
  induction h with
  | of_instance hT h =>
      obtain rfl : _ = thing := List.mem_singleton.mp hT
      obtain ⟨-, i, t, hi, hlead⟩ := h
      obtain rfl := Option.some.inj (hi.symm.trans thing_id)
      exact ⟨rfl, (leads_id.mp hlead).imp And.left And.left⟩
  | related _ hp he ht hh hl ih =>
      obtain ⟨rfl, -⟩ := ih
      obtain ⟨htarget, hhop⟩ := navigation hp he
      obtain rfl := Except.ok.inj (ht.symm.trans htarget)
      refine ⟨rfl, ?_⟩
      obtain hhop | ⟨hhop, -⟩ := hhop
      · obtain rfl := Except.ok.inj (hh.symm.trans hhop)
        exact Or.inl (leads_whole.mp hl).2
      · obtain rfl := Except.ok.inj (hh.symm.trans hhop)
        exact Or.inr (leads_part.mp hl).1

theorem requires {h : Hop} (hreq : thing.Requires schema h) : h = ⟨"ex:id", false⟩ := by
  have hmandatory : ∀ p ∈ thing.properties, p.isMandatory = true → p.isSingle = true →
      p.isElementary = true ∧ p.predicate = "ex:id" ∧ p.foreignKeyOf = none := by decide
  have helementary : ∀ p ∈ thing.properties, p.isMandatory = true → p.foreignKeyOf = none := by decide
  cases hreq with
  | value hp he _ hm => rw [(hmandatory _ hp hm (by simp [Property.isSingle, he])).2.1]
  | related hp he hsingle hm => simp [(hmandatory _ hp hm hsingle).1] at he
  | foreignKey hp hm hk => simp [helementary _ hp hm] at hk

theorem conforms : Conforms schema data where
  required {T n h} hn hreq := by
    obtain ⟨rfl, rfl | rfl⟩ := member_cases hn
    · exact ⟨_, requires hreq ▸ leads_id.mpr (Or.inl ⟨rfl, rfl⟩)⟩
    · exact ⟨_, requires hreq ▸ leads_id.mpr (Or.inr ⟨rfl, rfl⟩)⟩
  value {T n p a b} hn hp he hf ha hb := by
    obtain ⟨rfl, -⟩ := member_cases hn
    obtain hid | ⟨hlabel, -⟩ := elementary hp he hf
    · rw [Property.valueHop, hid, leads_id] at ha hb
      obtain ⟨rfl, rfl⟩ | ⟨rfl, rfl⟩ := ha
      · simpa [whole, part, eq_comm] using hb
      · simpa [whole, part, eq_comm] using hb
    · rw [Property.valueHop, hlabel, leads_label] at ha hb
      rw [ha.2, hb.2]
  single {T n p h a b} hn hp he hsingle hh ha hb := by
    obtain ⟨rfl, -⟩ := member_cases hn
    obtain hhop | ⟨-, hmany⟩ := (navigation hp he).2
    · obtain rfl := Except.ok.inj (hh.symm.trans hhop)
      rw [(leads_whole.mp ha).2, (leads_whole.mp hb).2]
    · simp [hsingle] at hmany
  id {T n m i a b} hn hm hi ha hb heq := by
    obtain ⟨rfl, -⟩ := member_cases hn
    obtain rfl := Option.some.inj (hi.symm.trans thing_id)
    obtain ⟨rfl, rfl⟩ | ⟨rfl, rfl⟩ := leads_id.mp ha
    · obtain ⟨rfl, -⟩ | ⟨-, rfl⟩ := leads_id.mp hb
      · rfl
      · simp [Term.ofNumeral, Term.text] at heq
    · obtain ⟨-, rfl⟩ | ⟨rfl, -⟩ := leads_id.mp hb
      · simp [Term.ofNumeral, Term.text] at heq
      · rfl

end Sample
end EntityGraph
