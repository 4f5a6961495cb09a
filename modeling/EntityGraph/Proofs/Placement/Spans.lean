import EntityGraph.Proofs.Pattern.Together
import EntityGraph.Proofs.Placement.Trees
import EntityGraph.Proofs.Placement.Unquoted

/-!
# The trees that a pattern speaks of

Branches are placed at an entity, and at the entities that lambda variables stand for. So all variables of
the pattern that a forest is placed as are in the trees of these entities; everything else in it is a
prefixed name of the schema.
-/
namespace EntityGraph

open Sparql

/-- The branch is about properties that the schema declares. -/
def Branch.Declared (schema : Schema) : Branch → Prop
  | .property b => ∃ T ∈ schema.types, ∃ p ∈ T.properties, b.Reads schema T p
  | .lambda _ _ => True
  | .any a => ∃ T ∈ schema.types, ∃ p ∈ T.properties, schema.hop p = .ok a.hop

namespace Schema.Accepted

theorem not_isVariable_branch {schema : Schema} (hs : schema.Accepted) {b : PropertyBranch}
    (h : (Branch.property b).Declared schema) :
    isVariable b.hop.predicate = false ∧ ∀ key, b.foreignKey = some key →
      isVariable key.hop.predicate = false ∧ isVariable key.idPredicate = false := by
  obtain ⟨T, hT, p, hp, hreads⟩ := h
  refine ⟨?_, fun key hkey => ?_⟩
  · cases he : p.isElementary with
    | true =>
        rw [hreads.valueHop he]
        exact (hs.declares_predicate hT hp).not_isVariable
    | false => exact (hs.declares_hop hT hp (hreads.relatedHop he)).not_isVariable
  · obtain ⟨-, hnone⟩ | ⟨related, hrel, t, ht, i, hi, hop, -, -, -, -, -, hhop, -, hsome⟩ := hreads.foreignKey
    · simp [hnone] at hkey
    · obtain rfl := Option.some.inj (hsome.symm.trans hkey)
      exact ⟨(hs.declares_hop hT hrel hhop).not_isVariable, (hs.declares_predicate ht hi).not_isVariable⟩

end Schema.Accepted

/-- A variable of the tree of one of these entities, or no variable at all. -/
def Naming.Spans (names : Naming) (tops : Set Place) (s : String) : Prop :=
  isVariable s = false ∨ ∃ l ∈ tops, names.InTree l s

theorem Naming.Spans.reaches {names : Naming} {tops : Set Place} {l q : Place} (hl : l ∈ tops)
    (h : names.Reaches l q) : names.Spans tops q.var :=
  Or.inr ⟨l, hl, h.inTree⟩

namespace Forest

variable {names names' : Naming} {tops : Set Place} {scope : Scope} {position : Position} {f g : Forest}

/-- The lambda variables of a forest stand for entities of `tops` where it is placed. -/
def Within (names : Naming) (tops : Set Place) : Forest → Scope → Prop
  | nil, _ => True
  | cons (.property _) below rest, scope => below.Within names tops scope ∧ rest.Within names tops scope
  | cons (.lambda name _) below rest, scope =>
    (∀ found, names.resolve scope name = .ok found → found.place ∈ tops) ∧
      below.Within names tops scope ∧ rest.Within names tops scope
  | cons (.any a) below rest, scope =>
    (∀ found, names.resolve (scope.enter a.key) a.lambda = .ok found → found.place ∈ tops) ∧
      below.Within names tops (scope.enter a.key) ∧ rest.Within names tops scope

theorem Within.congr (h : f.Within names tops scope)
    (hsame : ∀ scope name, names'.resolve scope name = names.resolve scope name) :
    f.Within names' tops scope := by
  induction f generalizing scope with
  | nil => trivial
  | cons branch below rest ihBelow ih =>
      cases branch with
      | property b => exact ⟨ihBelow h.1, ih h.2⟩
      | lambda name type =>
          exact ⟨fun found hfound => h.1 found (hsame _ _ ▸ hfound), ihBelow h.2.1, ih h.2.2⟩
      | any a => exact ⟨fun found hfound => h.1 found (hsame _ _ ▸ hfound), ihBelow h.2.1, ih h.2.2⟩

theorem Within.cons_iff {branch : Branch} {below rest : Forest} :
    (cons branch below rest).Within names tops scope ↔
      (cons branch below nil).Within names tops scope ∧ rest.Within names tops scope := by
  cases branch <;> simp [Within, and_assoc]

theorem Within.merge (hf : f.Within names tops scope) (hg : g.Within names tops scope) :
    (f.merge g).Within names tops scope := by
  refine merge_closed (C := Scope) (Q := fun f c => f.Within names tops c) (fun _ => trivial)
    Within.cons_iff ?_ (c := scope) hf hg
  intro branch below below' merged c h h' hmerged _
  cases branch with
  | property b => exact ⟨hmerged c h.1 h'.1, trivial⟩
  | lambda name type => exact ⟨h.1, hmerged c h.2.1 h'.2.1, trivial⟩
  | any a => exact ⟨h.1, hmerged _ h.2.1 h'.2.1, trivial⟩

/-- Without elements of collections, what can be resolved in the scope is all that matters. -/
theorem Made.within {top : Branch → Prop} (h : f.Made top) (htop : ∀ a, ¬ top (.any a))
    (hscope : ∀ name type found, top (.lambda name type) → names.resolve scope name = .ok found →
      found.place ∈ tops) :
    f.Within names tops scope := by
  induction f generalizing top with
  | nil => trivial
  | cons branch below rest ihBelow ih =>
      have hbelow := ihBelow h.2.1 (fun a ha => by simp [Branch.IsProperty] at ha)
        fun name type found hl => by simp [Branch.IsProperty] at hl
      cases branch with
      | property b => exact ⟨hbelow, ih h.2.2 htop hscope⟩
      | lambda name type => exact ⟨fun found => hscope name type found h.1, hbelow, ih h.2.2 htop hscope⟩
      | any a => exact absurd h.1 (htop a)

theorem Made.within_ofPath {top : Branch → Prop} {way : List Branch} {last : Forest}
    (h : (ofPath way nil).Made top) (htop : ∀ a, ¬ top (.any a))
    (hscope : ∀ name found, names.resolve scope name = .ok found → found.place ∈ tops)
    (hlast : last.Within names tops scope) : (ofPath way last).Within names tops scope := by
  induction way generalizing top with
  | nil => exact hlast
  | cons branch rest ih =>
      have hrest := ih h.2.1 fun a ha => by simp [Branch.IsProperty] at ha
      cases branch with
      | property b => exact ⟨hrest, trivial⟩
      | lambda name type => exact ⟨hscope name, hrest, trivial⟩
      | any a => exact absurd h.1 (htop a)

/-- One branch: what hangs below it is placed within the same trees, and its edges do not leave them. -/
theorem Within.placement {schema : Schema} (hs : schema.Accepted) {branch : Branch} {below : Forest}
    {placement : Placement} (h : (cons branch below nil).Within names tops position.scope)
    (hdeclared : branch.Declared schema) {l : Place} (hl : l ∈ tops) (hat : names.Reaches l position.place)
    (hplaced : branch.placement position names = .ok placement) :
    below.Within placement.names tops placement.position.scope ∧
      (∃ l ∈ tops, placement.names.Reaches l placement.position.place) ∧
      ∀ {names' : Naming} {inner : Body}, placement.names.Grows names' →
        inner.Each (Body.naming (names'.Spans tops)) placement.position.place.var →
        (placement.route.wrap inner).Each (Body.naming (names'.Spans tops)) position.place.var := by
  have hkeeps := Branch.placement_keeps hplaced
  have hhere := hkeeps.grows.reaches hat
  cases branch with
  | property b =>
      obtain ⟨hhop, hkey⟩ := hs.not_isVariable_branch hdeclared
      have hbelow := h.1.congr hkeeps.resolve
      cases hc : b.isComplex with
      | true =>
          rw [Branch.placement_related hc] at hplaced
          obtain rfl := Except.ok.inj hplaced
          have hr := hhere.step (Naming.keeps_relatedPlace names position.place b.name).2
          refine ⟨hbelow, ⟨l, hl, hr⟩, fun {names' _} hgrows hinner => ?_⟩
          have hroot := Naming.Spans.reaches hl (hgrows.reaches hhere)
          have htarget := Naming.Spans.reaches hl (hgrows.reaches hr)
          cases b.isSingle with
          | true => exact ⟨⟨⟨hroot, Or.inl hhop, htarget⟩, hinner, trivial⟩, trivial⟩
          | false => exact ⟨⟨⟨hroot, Or.inl hhop, htarget⟩, hinner, trivial⟩, trivial⟩
      | false =>
          cases hk : b.foreignKey with
          | none =>
              rw [Branch.placement_value hc hk] at hplaced
              obtain rfl := Except.ok.inj hplaced
              refine ⟨hbelow, ⟨l, hl, hhere⟩, fun {names' _} hgrows hinner => ?_⟩
              have hroot := Naming.Spans.reaches hl (hgrows.reaches hhere)
              have hv := hgrows.value (Naming.keeps_value names position.place b.name).2
              have htarget : names'.Spans tops (names.value position.place b.name).1 :=
                Or.inr ⟨l, hl, (hgrows.reaches hhere).inTree_value hv⟩
              have hinner := hinner.reroot htarget
              cases !b.isId && b.isMandatory with
              | true => exact ⟨⟨⟨hroot, Or.inl hhop, htarget⟩, hinner, trivial⟩, trivial⟩
              | false => exact ⟨⟨hroot, Or.inl hhop, htarget⟩, hinner, trivial⟩
          | some key =>
              obtain ⟨hkeyHop, hidHop⟩ := hkey key hk
              rw [Branch.placement_foreignKey hc hk rfl rfl] at hplaced
              obtain rfl := Except.ok.inj hplaced
              refine ⟨hbelow, ⟨l, hl, hhere⟩, fun {names' _} hgrows hinner => ?_⟩
              have hroot := Naming.Spans.reaches hl (hgrows.reaches hhere)
              have hlink := (Naming.keeps_link _ position.place b.name _).grows.trans hgrows
              obtain ⟨hvalue, hid⟩ := Naming.keeps_value (names.relatedPlace position.place key.navigation).2
                (names.relatedPlace position.place key.navigation).1 idName
              have hr := (hgrows.reaches hhere).step (hlink.related (hvalue.related
                (Naming.keeps_relatedPlace names position.place key.navigation).2))
              have hrelated := Naming.Spans.reaches hl hr
              have htarget : names'.Spans tops ((names.relatedPlace position.place key.navigation).2.value
                  (names.relatedPlace position.place key.navigation).1 idName).1 :=
                Or.inr ⟨l, hl, hr.inTree_value (hlink.value hid)⟩
              exact ⟨⟨⟨hroot, Or.inl hkeyHop, hrelated⟩, ⟨⟨hrelated, Or.inl hidHop, htarget⟩,
                hinner.reroot htarget, trivial⟩, trivial⟩, trivial⟩
  | lambda name type =>
      simp only [Branch.placement] at hplaced
      split at hplaced
      · simp at hplaced
      · next found hfound =>
          obtain rfl := Except.ok.inj hplaced
          exact ⟨h.2.1, ⟨_, h.1 found hfound, .self⟩, fun _ hinner => ⟨trivial, hinner, trivial⟩⟩
  | any a =>
      obtain ⟨T, hT, p, hp, hhop⟩ := hdeclared
      simp only [Branch.placement] at hplaced
      split at hplaced
      · simp at hplaced
      · next found hfound =>
          obtain rfl := Except.ok.inj hplaced
          have hmem := h.1 found hfound
          refine ⟨h.2.1, ⟨_, hmem, .self⟩, fun hgrows hinner =>
            ⟨⟨?_, Or.inl ?_, .reaches hmem .self⟩, hinner, trivial⟩⟩
          · exact .reaches hl (hgrows.reaches hhere)
          · exact (hs.declares_hop hT hp hhop).not_isVariable

theorem place_spans {schema : Schema} (hs : schema.Accepted)
    (hgrows : (f.place Rule.builtin position names).names.Grows names')
    (hf : f.Within names tops position.scope)
    (hdeclared : f.Every (Branch.Declared schema)) {l : Place} (hl : l ∈ tops)
    (hat : names.Reaches l position.place) :
    (f.place Rule.builtin position names).body.Each (Body.naming (names'.Spans tops)) position.place.var := by
  refine place_each (Q := fun f position names => f.Within names tops position.scope ∧
    f.Every (Branch.Declared schema) ∧ ∃ l ∈ tops, names.Reaches l position.place) ?_
    ⟨hf, hdeclared, l, hl, hat⟩ hgrows
  intro branch below rest position names placement h hplaced
  obtain ⟨hf, ⟨hd, hdbelow, hdrest⟩, l, hl, hat⟩ := h
  obtain ⟨hbranch, hrest⟩ := Within.cons_iff.mp hf
  obtain ⟨hbelow, hreaches, hwrap⟩ := hbranch.placement hs hd hl hat hplaced
  have hbefore := (Branch.placement_keeps hplaced).trans
    (@Forest.place_keeps below placement.position placement.names)
  exact ⟨⟨hbelow, hdbelow, hreaches⟩, ⟨hrest.congr hbefore.resolve, hdrest, l, hl, hbefore.grows.reaches hat⟩,
    fun hinner => hwrap (place_keeps.grows.trans hinner)⟩

end Forest

theorem Pattern.words_spans {names : Naming} {tops : Set Place} {p : Pattern}
    (h : p.body.Each (Body.naming (names.Spans tops)) p.root) :
    ∀ word ∈ p.group.words, names.Spans tops word := by
  refine Group.forall_words (fun mark hmark => Or.inl ?_) p.group fun t ht =>
    h.triples (mem_triples_group.mp ht)
  revert mark
  decide

theorem Body.exists_triple {B : Body} {v : String} (root : String) (h : v ∈ B.targets) :
    ∃ t ∈ B.triples root, t.HasEnd v := by
  induction B generalizing root with
  | nil => simp [targets] at h
  | leaf predicate term rest ih =>
      obtain ⟨t, ht, hend⟩ := ih root h
      exact ⟨t, List.mem_cons_of_mem _ ht, hend⟩
  | edge e below rest ihBelow ih =>
      obtain rfl | h := List.mem_cons.mp h
      · exact ⟨e.triple root, List.mem_cons_self, Edge.hasEnd_triple.mpr (Or.inr rfl)⟩
      · obtain h | h := List.mem_append.mp h
        · obtain ⟨t, ht, hend⟩ := ihBelow e.target h
          exact ⟨t, List.mem_cons_of_mem _ (List.mem_append_left _ ht), hend⟩
        · obtain ⟨t, ht, hend⟩ := ih root h
          exact ⟨t, List.mem_cons_of_mem _ (List.mem_append_right _ ht), hend⟩
  | alternative isSlot body rest ihBody ih =>
      obtain h | h := List.mem_append.mp h
      · obtain ⟨t, ht, hend⟩ := ihBody root h
        exact ⟨t, List.mem_append_left _ ht, hend⟩
      · obtain ⟨t, ht, hend⟩ := ih root h
        exact ⟨t, List.mem_append_right _ ht, hend⟩
  | conjunct own body rest ihBody ih =>
      obtain h | h := List.mem_append.mp h
      · obtain ⟨t, ht, hend⟩ := ihBody own h
        exact ⟨t, List.mem_append_left _ ht, hend⟩
      · obtain ⟨t, ht, hend⟩ := ih root h
        exact ⟨t, List.mem_append_right _ ht, hend⟩

theorem Pattern.exists_triple {p : Pattern} {v : String} (h : v ∈ p.body.targets) :
    ∃ t ∈ p.group.triples, t.HasEnd v := by
  obtain ⟨t, ht, hend⟩ := Body.exists_triple p.root h
  exact ⟨t, mem_triples_group.mpr ht, hend⟩

end EntityGraph
