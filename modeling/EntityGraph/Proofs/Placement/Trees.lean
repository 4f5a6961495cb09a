import EntityGraph.Proofs.Expand.Fits
import EntityGraph.Proofs.Naming.Trees

/-!
# Placing branches in the trees of the names

Placing a branch makes up names below the entity where it is placed, so labels that are handed down the
trees can be handed on, and trees that are apart stay apart.

A forest of properties is placed as a pattern whose edges are steps in the trees: from an entity to one
of its values or to a related entity. Nothing hangs below values. So the numbers of the variables grow
along the edges.
-/
namespace EntityGraph

section Labels

open Naming (Labelled Relabelled)

variable {α : Type} {scheme : Naming.Labelling α} {label : Nat → α} {names : Naming}

theorem Branch.placement_labelled {branch : Branch} {position : Position} {placement : Placement}
    (h : names.Labelled scheme label) (hq : position.place.number < names.next)
    (hscopes : ∀ scope name found, names.resolve scope name = .ok found → found.place.number < names.next)
    (hplaced : branch.placement position names = .ok placement) :
    ∃ label', Relabelled scheme names label placement.names label' ∧
      placement.position.place.number < placement.names.next := by
  cases branch with
  | property b =>
      cases hc : b.isComplex with
      | true =>
          rw [placement_related hc] at hplaced
          obtain rfl := Except.ok.inj hplaced
          obtain ⟨label', hlabel⟩ := h.relatedPlace hq b.name
          exact ⟨label', hlabel, (hlabel.labelled.related (Naming.keeps_relatedPlace names _ _).2).2.1⟩
      | false =>
          cases hk : b.foreignKey with
          | none =>
              rw [placement_value hc hk] at hplaced
              obtain rfl := Except.ok.inj hplaced
              obtain ⟨label', hlabel⟩ := h.value_made hq b.name
              exact ⟨label', hlabel, hq.trans_le hlabel.next⟩
          | some key =>
              rw [placement_foreignKey hc hk rfl rfl] at hplaced
              obtain rfl := Except.ok.inj hplaced
              obtain ⟨label₁, hlabel₁⟩ := h.relatedPlace hq key.navigation
              have hrelated := (Naming.keeps_relatedPlace names position.place key.navigation).2
              obtain ⟨label₂, hlabel₂⟩ :=
                hlabel₁.labelled.value_made (hlabel₁.labelled.related hrelated).2.1 idName
              obtain ⟨hkeeps, hid⟩ := Naming.keeps_value (names.relatedPlace position.place key.navigation).2
                (names.relatedPlace position.place key.navigation).1 idName
              have hboth := hlabel₁.trans hlabel₂
              have hnext : ∀ (names : Naming) q name v, (names.link q name v).2.next = names.next := by
                intro names q name v
                unfold Naming.link
                split <;> rfl
              refine ⟨label₂, ⟨hboth.labelled.link (hkeeps.related hrelated) hid, ?_, hboth.same⟩, ?_⟩
              · exact hboth.next.trans_eq (hnext _ _ _ _).symm
              · exact (hq.trans_le hboth.next).trans_eq (hnext _ _ _ _).symm
  | lambda name type =>
      simp only [Branch.placement] at hplaced
      split at hplaced
      · simp at hplaced
      · next found hfound =>
          obtain rfl := Except.ok.inj hplaced
          exact ⟨label, .refl h, hscopes _ _ _ hfound⟩
  | any a =>
      simp only [Branch.placement] at hplaced
      split at hplaced
      · simp at hplaced
      · next found hfound =>
          obtain rfl := Except.ok.inj hplaced
          exact ⟨label, .refl h, hscopes _ _ _ hfound⟩

theorem Forest.place_labelled (forest : Forest) {position : Position} (h : names.Labelled scheme label)
    (hq : position.place.number < names.next)
    (hscopes : ∀ scope name found, names.resolve scope name = .ok found → found.place.number < names.next) :
    ∃ label', Relabelled scheme names label (forest.place Rule.builtin position names).names label' := by
  have hlater : ∀ {names names' : Naming}, names.Keeps names' →
      (∀ scope name found, names.resolve scope name = .ok found → found.place.number < names.next) →
      names.next ≤ names'.next →
      ∀ scope name found, names'.resolve scope name = .ok found → found.place.number < names'.next := by
    intro names names' hkeeps hscopes hnext scope name found hfound
    rw [hkeeps.resolve] at hfound
    calc found.place.number < names.next := hscopes scope name found hfound
      _ ≤ names'.next := hnext
  induction forest generalizing position names label with
  | nil => exact ⟨label, .refl h⟩
  | cons branch below rest ihBelow ih =>
      rw [place_cons]
      cases hplaced : branch.placement position names with
      | error e => exact ⟨label, .refl h⟩
      | ok placement =>
          have hkeeps := Branch.placement_keeps hplaced
          obtain ⟨label₁, hlabel₁, hplace⟩ := Branch.placement_labelled h hq hscopes hplaced
          obtain ⟨label₂, hlabel₂⟩ := ihBelow hlabel₁.labelled hplace
            (hlater hkeeps hscopes hlabel₁.next)
          have hboth := hlabel₁.trans hlabel₂
          simp only
          split
          · exact ⟨label₂, hboth⟩
          · obtain ⟨label₃, hlabel₃⟩ := ih hboth.labelled (hq.trans_le hboth.next)
              (hlater (hkeeps.trans place_keeps) hscopes hboth.next)
            exact ⟨label₃, hboth.trans hlabel₃⟩

theorem Naming.Parted.extend {names' : Naming} {roots : Set Place} {loose : Set Nat}
    (h : names.Parted roots loose)
    (hkeeps : names.Keeps names') (hlabels : ∀ {label}, names.Labelled Naming.inherited label →
      ∃ label', Relabelled Naming.inherited names label names' label') :
    names'.Parted roots loose ∧ names.next ≤ names'.next := by
  obtain ⟨label, hlabel, hroots, hloose, hdefined⟩ := h
  obtain ⟨label', hlabel'⟩ := hlabels hlabel
  refine ⟨.relabelled hroots hloose (fun scope name found hfound => ?_) hlabel', hlabel'.next⟩
  rw [Naming.defined?, hkeeps.namespaces] at hfound
  exact hdefined scope name found hfound

theorem Naming.Parted.place {roots : Set Place} {loose : Set Nat} (h : names.Parted roots loose)
    (forest : Forest) {position : Position} (hq : position.place.number < names.next) :
    (forest.place Rule.builtin position names).names.Parted roots loose ∧
      names.next ≤ (forest.place Rule.builtin position names).names.next :=
  h.extend Forest.place_keeps fun hlabel => forest.place_labelled hlabel hq
    fun _ _ _ hfound => h.root_lt (h.resolve hfound)

end Labels

namespace Forest

variable {f g : Forest}

def Pruned : Forest → Prop
  | nil => True
  | cons branch below rest => (∀ b, branch = .property b → b.isComplex = false → below = nil) ∧
    below.Pruned ∧ rest.Pruned

theorem Pruned.merge (hf : f.Pruned) (hg : g.Pruned) : (f.merge g).Pruned := by
  refine merge_closed (C := Unit) (Q := fun f _ => f.Pruned) (fun _ => trivial) ?_ ?_ (c := ()) hf hg
  · intro branch below rest _
    simp [Pruned, and_assoc]
  · intro branch below below' merged _ h h' hmerged hnil
    exact ⟨fun b hb hc => hnil (h.1 b hb hc) (h'.1 b hb hc), hmerged () h.2.1 h'.2.1, trivial⟩

theorem Pruned.ofPath {way : List Branch} (hway : ∀ b, .property b ∈ way → b.isComplex = true) {last : Forest}
    (hlast : last.Pruned) : (ofPath way last).Pruned := by
  induction way with
  | nil => exact hlast
  | cons branch rest ih =>
      refine ⟨?_, ih fun b hb => hway b (List.mem_cons_of_mem _ hb), trivial⟩
      rintro b rfl hc
      simp [hway b List.mem_cons_self] at hc

theorem Made.every (h : f.Made Branch.IsProperty) : f.Every Branch.IsProperty := by
  induction f with
  | nil => trivial
  | cons branch below rest ihBelow ih => exact ⟨h.1, ihBelow h.2.1, ih h.2.2⟩

end Forest

/-- The edges go from entities to their values and to related entities. -/
def Body.steps (names : Naming) : Body.Condition where
  leaf _ _ _ := False
  edge root e := ∃ q name, root = q.var ∧
    (names.value? q name = some e.target ∨ ∃ r, names.related? q name = some r ∧ e.target = r.var)
  conjunct _ _ := False

/-- What holds of a pattern with one more branch around it holds of the pattern of a forest; `Q` is what is
known where a part of the forest is placed. -/
theorem Forest.place_each {c : Body.Condition} {names' : Naming} {Q : Forest → Position → Naming → Prop}
    (hstep : ∀ {branch below rest position names placement}, Q (.cons branch below rest) position names →
      branch.placement position names = .ok placement →
      Q below placement.position placement.names ∧
      Q rest position (below.place Rule.builtin placement.position placement.names).names ∧
      ((below.place Rule.builtin placement.position placement.names).names.Grows names' →
        (below.place Rule.builtin placement.position placement.names).body.Each c
        placement.position.place.var →
        (placement.route.wrap (below.place Rule.builtin placement.position placement.names).body).Each c
          position.place.var))
    {forest : Forest} {position : Position} {names : Naming} (h : Q forest position names)
    (hgrows : (forest.place Rule.builtin position names).names.Grows names') :
    (forest.place Rule.builtin position names).body.Each c position.place.var := by
  induction forest generalizing position names with
  | nil => trivial
  | cons branch below rest ihBelow ih =>
      rw [place_cons] at hgrows ⊢
      cases hplaced : branch.placement position names with
      | error e => trivial
      | ok placement =>
          obtain ⟨hbelow, hrest, hwrap⟩ := hstep h hplaced
          simp only [hplaced] at hgrows ⊢
          split at hgrows
          · exact hwrap hgrows (ihBelow hbelow hgrows)
          · have hinner := (@Forest.place_keeps rest position _).grows.trans hgrows
            exact (hwrap hinner (ihBelow hbelow hinner)).merge (ih hrest hgrows)

theorem Branch.placement_steps {b : PropertyBranch} {position : Position} {names names' : Naming}
    {placement : Placement} (hplaced : (Branch.property b).placement position names = .ok placement)
    (hgrows : placement.names.Grows names') {inner : Body} (hnil : b.isComplex = false → inner = .nil)
    (hinner : inner.Each (Body.steps names') placement.position.place.var) :
    (placement.route.wrap inner).Each (Body.steps names') position.place.var := by
  cases hc : b.isComplex with
  | true =>
      rw [placement_related hc] at hplaced
      obtain rfl := Except.ok.inj hplaced
      have hr := hgrows.related (Naming.keeps_relatedPlace names position.place b.name).2
      cases b.isSingle with
      | true => exact ⟨⟨⟨_, _, rfl, Or.inr ⟨_, hr, rfl⟩⟩, hinner, trivial⟩, trivial⟩
      | false => exact ⟨⟨⟨_, _, rfl, Or.inr ⟨_, hr, rfl⟩⟩, hinner, trivial⟩, trivial⟩
  | false =>
      obtain rfl := hnil hc
      cases hk : b.foreignKey with
      | none =>
          rw [placement_value hc hk] at hplaced
          obtain rfl := Except.ok.inj hplaced
          have hv := hgrows.value (Naming.keeps_value names position.place b.name).2
          cases !b.isId && b.isMandatory with
          | true => exact ⟨⟨⟨_, _, rfl, Or.inl hv⟩, trivial, trivial⟩, trivial⟩
          | false => exact ⟨⟨_, _, rfl, Or.inl hv⟩, trivial, trivial⟩
      | some key =>
          rw [placement_foreignKey hc hk rfl rfl] at hplaced
          obtain rfl := Except.ok.inj hplaced
          have hlink := (Naming.keeps_link _ position.place b.name _).grows.trans hgrows
          have hr := (Naming.keeps_relatedPlace names position.place key.navigation).2
          obtain ⟨hkeeps, hid⟩ := Naming.keeps_value (names.relatedPlace position.place key.navigation).2
            (names.relatedPlace position.place key.navigation).1 idName
          refine ⟨⟨⟨_, _, rfl, Or.inr ⟨_, hlink.related (hkeeps.related hr), rfl⟩⟩, ?_, trivial⟩, trivial⟩
          exact ⟨⟨_, _, rfl, Or.inl (hlink.value hid)⟩, trivial, trivial⟩

theorem Forest.place_steps {forest : Forest} {position : Position} {names names' : Naming}
    (hproperties : forest.Every Branch.IsProperty) (hpruned : forest.Pruned)
    (hgrows : (forest.place Rule.builtin position names).names.Grows names') :
    (forest.place Rule.builtin position names).body.Each (Body.steps names') position.place.var := by
  refine place_each (Q := fun forest _ _ => forest.Every Branch.IsProperty ∧ forest.Pruned) ?_
    ⟨hproperties, hpruned⟩ hgrows
  intro branch below rest position names placement h hplaced
  obtain ⟨⟨⟨b, rfl⟩, hbelow, hrest⟩, hvalue, hprunedBelow, hprunedRest⟩ := h
  refine ⟨⟨hbelow, hprunedBelow⟩, ⟨hrest, hprunedRest⟩, fun hinner hbody => ?_⟩
  refine Branch.placement_steps hplaced (place_keeps.grows.trans hinner) (fun hc => ?_) hbody
  obtain rfl := hvalue b rfl hc
  rfl

theorem Naming.Grows.steps {names names' : Naming} (h : names.Grows names') {root : String} {e : Edge}
    (he : (Body.steps names).edge root e) : (Body.steps names').edge root e := by
  obtain ⟨q, name, rfl, hv | ⟨r, hr, htarget⟩⟩ := he
  · exact ⟨q, name, rfl, Or.inl (h.value hv)⟩
  · exact ⟨q, name, rfl, Or.inr ⟨r, h.related hr, htarget⟩⟩

theorem Naming.Labelled.step_lt {α : Type} {scheme : Naming.Labelling α} {label : Nat → α} {names : Naming}
    (h : names.Labelled scheme label) {root : String} {e : Edge} (he : (Body.steps names).edge root e) :
    ∃ i k, root = variableName i ∧ e.target = variableName k ∧ i < k := by
  obtain ⟨q, name, rfl, hv | ⟨r, hr, htarget⟩⟩ := he
  · obtain ⟨k, hk, hlt, -⟩ := h.value hv
    exact ⟨q.number, k, rfl, hk, hlt⟩
  · exact ⟨q.number, r.number, rfl, htarget, (h.related hr).1⟩

/-- The branches of a shape are properties, and nothing hangs below its values. -/
theorem Shape.Shows.pruned {schema : Schema} {T : EntityType} {expand : ExpandTree} {ps : List Property}
    {shape : Shape} (hs : schema.Accepted) (hT : T ∈ schema.types) (h : Shows schema expand ps shape)
    (hps : ∀ p ∈ ps, p ∈ T.properties) :
    ∃ forest, shape.forest schema T = .ok forest ∧ forest.Every Branch.IsProperty ∧ forest.Pruned := by
  induction h generalizing T with
  | nil => exact ⟨.nil, rfl, trivial, trivial⟩
  | value _ _ ih =>
      obtain ⟨hp, hps⟩ := List.forall_mem_cons.mp hps
      obtain ⟨rest, hrest, hevery, hpruned⟩ := ih hT hps
      obtain ⟨b, hb, -⟩ := hs.ofProperty hT hp
      refine ⟨.cons (.property b) .nil rest, ?_, ⟨⟨b, rfl⟩, trivial, hevery⟩, fun _ _ _ => rfl,
        trivial, hpruned⟩
      simp [Shape.forest, hb, hrest, bind, Except.bind, pure, Except.pure]
  | skip _ _ _ ih => exact ih hT (List.forall_mem_cons.mp hps).2
  | navigation he _ ht _ _ ihBelow ih =>
      obtain ⟨hp, hps⟩ := List.forall_mem_cons.mp hps
      obtain ⟨t', ht', htarget⟩ := hs.targetType hT hp he
      obtain rfl := Except.ok.inj (ht.symm.trans htarget)
      obtain ⟨inner, hinner, hbelow, hprunedBelow⟩ := ihBelow ht' fun _ => id
      obtain ⟨rest, hrest, hevery, hpruned⟩ := ih hT hps
      obtain ⟨b, hb, hreads⟩ := hs.ofProperty hT hp
      refine ⟨.cons (.property b) inner rest, ?_, ⟨⟨b, rfl⟩, hbelow, hevery⟩, ?_, hprunedBelow, hpruned⟩
      · simp [Shape.forest, hb, hinner, hrest, bind, Except.bind, pure, Except.pure]
      · rintro b' ⟨⟩ hc
        simp [hreads.isComplex, he] at hc

end EntityGraph
