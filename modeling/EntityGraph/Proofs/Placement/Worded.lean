import EntityGraph.Proofs.Expand.Fits
import EntityGraph.Proofs.Pattern.Faithful
import EntityGraph.Proofs.Schema.Closed

/-!
# The vocabulary of a pattern

A pattern says what it says with the predicates and classes of the schema and with the variables that
were made up. Whatever holds of these holds of everything that the pattern of an expanded read, or of a
forest of branches of the schema, is made of; and of the variables that have been made up on the way.
-/
namespace EntityGraph

open Sparql (Triple Group)

/-- What may stand in a query: as predicates and fixed terms, as variables, and as numerals. -/
structure Vocabulary where
  name : String → Prop
  var : String → Prop
  numeral : String → Prop

/-- The predicates and classes of the schema and all numbered variables belong to the vocabulary. -/
structure Vocabulary.Covers (w : Vocabulary) (schema : Schema) : Prop where
  name : ∀ name, schema.Declares name → w.name name
  var : ∀ k, w.var (variableName k)

/-- The words of every triple belong to the vocabulary. -/
def Sparql.Group.Worded (w : Vocabulary) (group : Group) : Prop :=
  ∀ t ∈ group.triples, w.var t.subject ∧ w.name t.predicate ∧ (w.var t.object ∨ w.name t.object)

variable {w : Vocabulary} {schema : Schema}

theorem Vocabulary.Covers.place_var (hw : w.Covers schema) (place : Place) : w.var place.var :=
    hw.var place.number

def Branch.Worded (w : Vocabulary) : Branch → Prop
  | .property b => w.name b.hop.predicate ∧
      ∀ key, b.foreignKey = some key → w.name key.hop.predicate ∧ w.name key.idPredicate
  | .lambda _ _ => True
  | .any a => w.name a.hop.predicate

theorem PropertyBranch.Reads.worded {T : EntityType} {p : Property} {b : PropertyBranch}
    (h : b.Reads schema T p) (hs : schema.Accepted) (hw : w.Covers schema) (hT : T ∈ schema.types)
    (hp : p ∈ T.properties) : (Branch.property b).Worded w := by
  refine ⟨?_, fun key hkey => ?_⟩
  · cases he : p.isElementary with
    | true =>
        rw [h.valueHop he]
        exact hw.name _ (hs.declares_predicate hT hp)
    | false => exact hw.name _ (hs.declares_hop hT hp (h.relatedHop he))
  · obtain ⟨-, hnone⟩ | ⟨related, hrel, t, ht, i, hi, hop, -, -, -, -, -, hhop, -, hsome⟩ := h.foreignKey
    · simp [hnone] at hkey
    · obtain rfl := Option.some.inj (hsome.symm.trans hkey)
      exact ⟨hw.name _ (hs.declares_hop hT hrel hhop), hw.name _ (hs.declares_predicate ht hi)⟩

namespace Naming

/-- The variables of values belong to the vocabulary. -/
def Worded (w : Vocabulary) (names : Naming) : Prop :=
  ∀ place name var, names.value? place name = some var → w.var var

variable {names : Naming} {place : Place} {name : String}

theorem Worded.add (h : names.Worded w) {var : String} (hvar : w.var var) :
    Worded w { names with values := names.values ++ [((place, name), var)] } := by
  intro place' name' var' hfound
  obtain hfound | ⟨-, -, rfl, -⟩ := lookup_of_append hfound
  · exact h _ _ _ hfound
  · exact hvar

theorem Worded.value (h : names.Worded w) (hw : w.Covers schema) (place : Place) (name : String) :
    w.var (names.value place name).1 ∧ (names.value place name).2.Worded w := by
  unfold Naming.value
  split
  · next var hvar => exact ⟨h _ _ _ hvar, h⟩
  · exact ⟨hw.var _, h.add (hw.var _)⟩

theorem Worded.link (h : names.Worded w) {var : String} (hvar : w.var var) :
    (names.link place name var).2.Worded w := by
  unfold Naming.link
  split
  · exact h
  · exact h.add hvar

theorem Worded.relatedPlace (h : names.Worded w) : (names.relatedPlace place name).2.Worded w := by
  unfold Naming.relatedPlace
  split
  · exact h
  · exact h

end Naming

def Step.Worded (w : Vocabulary) : Step → Prop
  | slot => True
  | alternative => True
  | edge e => w.name e.hop.predicate ∧ w.var e.target
  | conjunct own => w.var own

namespace Body

/-- The words of leaves and edges belong to the vocabulary: those of their roots as well. -/
def worded (w : Vocabulary) : Condition where
  leaf root predicate term := w.var root ∧ w.name predicate ∧ w.name term
  edge root e := w.var root ∧ w.name e.hop.predicate ∧ w.var e.target
  conjunct _ _ := True

variable {body : Body} {root : String}

theorem Each.rerooted {root' : String} (h : body.Each (worded w) root) (hroot : w.var root') :
    body.Each (worded w) root' :=
  h.moved (fun _ _ hleaf => ⟨hroot, hleaf.2⟩) (fun _ hedge => ⟨hroot, hedge.2⟩) fun _ _ => trivial

theorem Each.wrap {route : Route} (hroute : ∀ step ∈ route, step.Worded w) (hroot : w.var root)
    (h : body.Each (worded w) root) : (route.wrap body).Each (worded w) root := by
  induction route generalizing root with
  | nil => exact h
  | cons step rest ih =>
      obtain ⟨hstep, hrest⟩ := List.forall_mem_cons.mp hroute
      cases step with
      | slot => exact ⟨ih hrest hroot h, trivial⟩
      | alternative => exact ⟨ih hrest hroot h, trivial⟩
      | edge e => exact ⟨⟨hroot, hstep⟩, ih hrest hstep.2 (h.rerooted hstep.2), trivial⟩
      | conjunct own => exact ⟨trivial, ih hrest hstep (h.rerooted hstep), trivial⟩

end Body

theorem Pattern.worded_group {p : Pattern} (h : p.body.Each (Body.worded w) p.root) : p.group.Worded w := by
  intro t ht
  refine Body.Each.of_mem_triples (c := Body.worded w)
    (P := fun t => w.var t.subject ∧ w.name t.predicate ∧ (w.var t.object ∨ w.name t.object))
    (fun _ _ _ hleaf => ⟨hleaf.1, hleaf.2.1, Or.inr hleaf.2.2⟩)
    (fun root e hedge => ?_) h (mem_triples_group.mp ht)
  unfold Edge.triple
  split
  · exact ⟨hedge.2.2, hedge.2.1, Or.inl hedge.1⟩
  · exact ⟨hedge.1, hedge.2.1, Or.inl hedge.2.2⟩

theorem Branch.Worded.placement {branch : Branch} {position : Position} {names : Naming}
    {placement : Placement} (h : branch.Worded w) (hw : w.Covers schema) (hn : names.Worded w)
    (hplaced : branch.placement position names = .ok placement) :
    (∀ step ∈ placement.route, step.Worded w) ∧ placement.names.Worded w := by
  cases branch with
  | property b =>
      obtain ⟨hhop, hkey⟩ := h
      cases hcomplex : b.isComplex with
      | true =>
          rw [placement_related hcomplex] at hplaced
          obtain rfl := Except.ok.inj hplaced
          refine ⟨?_, hn.relatedPlace⟩
          have hedge := And.intro hhop (hw.place_var (names.relatedPlace position.place b.name).1)
          cases b.isSingle <;> simpa [Step.Worded] using hedge
      | false =>
          cases hforeign : b.foreignKey with
          | none =>
              rw [placement_value hcomplex hforeign] at hplaced
              obtain rfl := Except.ok.inj hplaced
              obtain ⟨hvar, hnames⟩ := hn.value hw position.place b.name
              refine ⟨?_, hnames⟩
              cases !b.isId && b.isMandatory <;> simpa [Step.Worded] using And.intro hhop hvar
          | some key =>
              obtain ⟨hkeyHop, hid⟩ := hkey key hforeign
              rw [placement_foreignKey hcomplex hforeign rfl rfl] at hplaced
              obtain rfl := Except.ok.inj hplaced
              obtain ⟨hvar, hnames⟩ := hn.relatedPlace.value hw
                (names.relatedPlace position.place key.navigation).1 idName
              refine ⟨?_, hnames.link hvar⟩
              have hrelated := hw.place_var (names.relatedPlace position.place key.navigation).1
              simpa [Step.Worded] using ⟨⟨hkeyHop, hrelated⟩, hid, hvar⟩
  | lambda name type =>
      simp only [Branch.placement] at hplaced
      split at hplaced
      · simp at hplaced
      · obtain rfl := Except.ok.inj hplaced
        exact ⟨by simpa [Step.Worded] using hw.place_var _, hn⟩
  | any a =>
      simp only [Branch.placement] at hplaced
      split at hplaced
      · simp at hplaced
      · obtain rfl := Except.ok.inj hplaced
        change w.name a.hop.predicate at h
        exact ⟨by simpa [Step.Worded] using And.intro h (hw.place_var _), hn⟩

theorem Forest.Every.worded_place {f : Forest} {names : Naming} (hf : f.Every (Branch.Worded w))
    (hw : w.Covers schema) (hn : names.Worded w) (position : Position) :
    (f.place Rule.builtin position names).body.Each (Body.worded w) position.place.var ∧
      (f.place Rule.builtin position names).names.Worded w := by
  induction f generalizing position names with
  | nil => exact ⟨trivial, hn⟩
  | cons branch below rest ihBelow ih =>
      obtain ⟨hbranch, hbelow, hrest⟩ := hf
      rw [place_cons]
      cases hplaced : branch.placement position names with
      | error e => exact ⟨trivial, hn⟩
      | ok placement =>
          obtain ⟨hroute, hnames⟩ := hbranch.placement hw hn hplaced
          obtain ⟨hinner, hafter⟩ := ihBelow hbelow hnames placement.position
          have hroot := hw.place_var position.place
          have hbody := (hinner.rerooted hroot).wrap hroute hroot
          simp only
          split
          · exact ⟨hbody, hafter⟩
          · obtain ⟨hothers, hlast⟩ := ih hrest hafter position
            exact ⟨hbody.merge hothers, hlast⟩

theorem ExpandTree.worded_compile (hs : schema.Accepted) (hw : w.Covers schema) {T : EntityType}
    (hT : T ∈ schema.types) {expand : ExpandTree} {position : Position} {names names' : Naming}
    {pattern : Pattern}
    (hn : names.Worded w) (h : expand.compile schema Rule.builtin T position names = .ok (pattern, names')) :
    pattern.root = position.place.var ∧ pattern.body.Each (Body.worded w) position.place.var ∧
      names'.Worded w := by
  obtain ⟨shape, hshape⟩ := Shape.exists_ofExpand hs expand hT
  obtain ⟨forest, hforest, hevery⟩ := (Shape.shows_ofExpand hs hT hshape).every (P := Branch.Worded w) hs
    (fun T hT p hp b hreads => hreads.worded hs hw hT hp) hT fun _ => id
  obtain ⟨hbody, hnames⟩ := hevery.worded_place hw hn position
  have hclass : (classBody T).Each (Body.worded w) position.place.var := by
    unfold classBody
    split
    · next name hname =>
        exact ⟨⟨hw.place_var _, hw.name _ hs.declares_rdfType,
          hw.name _ (hs.declares_rdfClass hT hname)⟩, trivial⟩
    · trivial
  unfold compile select at h
  cases hfault : expand.fault? schema T with
  | some e => simp [hfault] at h
  | none =>
      simp only [hfault, hshape, hforest, bind, Except.bind, Forest.placeAll] at h
      cases hfailure : (forest.place Rule.builtin position names).failure with
      | some e => simp [hfailure] at h
      | none =>
          simp only [hfailure] at h
          obtain ⟨rfl, rfl⟩ := Prod.mk.inj (Except.ok.inj h)
          exact ⟨rfl, hclass.merge hbody, hnames⟩

end EntityGraph
