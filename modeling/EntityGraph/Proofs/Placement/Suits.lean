import EntityGraph.Proofs.Naming.Steps
import EntityGraph.Proofs.Placement.Step

/-!
# Placing forests that suit the schema

A forest suits an entity type when its branches are properties of the type, and what hangs below
them suits the types they lead to; lambda variables have to be bound to entities whose types are
known, and the elements of a collection have to be reached from the entity they are asked for at.
Such a forest can always be placed. Its pattern is laid on the chart: its edges are edges of the
chart, and a plain edge is one that the schema requires.
-/
namespace EntityGraph

/-- The edges that every entity of a type must have. -/
inductive EntityType.Requires (schema : Schema) (T : EntityType) : Hop → Prop
  | value {p : Property} (hp : p ∈ T.properties) (he : p.isElementary = true)
      (hk : p.foreignKeyOf = none) (hm : p.isMandatory = true) :
      Requires schema T ⟨p.predicate, false⟩
  | related {p : Property} {h : Hop} (hp : p ∈ T.properties) (he : p.isElementary = false)
      (hsingle : p.isSingle = true) (hm : p.isMandatory = true) (hh : schema.hop p = .ok h) :
      Requires schema T h
  | foreignKey {p related : Property} {h : Hop} (hp : p ∈ T.properties) (hm : p.isMandatory = true)
      (hk : p.foreignKeyOf = some related.name) (hr : related ∈ T.properties)
      (hh : schema.hop related = .ok h) : Requires schema T h

/-- No identifier is itself a foreign key. -/
def Schema.OwnIds (schema : Schema) : Prop :=
  ∀ T ∈ schema.types, ∀ i, T.property? idName = some i → i.foreignKeyOf = none

/-- What is known outside a pattern: the lambda variables that stand for entities, at which
conjuncts of the pattern at `top` may hang, and edges to elements of collections. -/
structure Outlook where
  top : String
  lambda : String → Option (Place × EntityType)
  link : String → Option (String × Hop)

instance : EmptyCollection Outlook := ⟨⟨"", fun _ => none, fun _ => none⟩⟩

def Outlook.bound (L : Outlook) : Set String := {v | ∃ name q t, L.lambda name = some (q, t) ∧ v = q.var}

theorem Outlook.not_mem_bound_empty (v : String) : v ∉ (∅ : Outlook).bound := by
  rintro ⟨name, q, t, h, -⟩
  exact Option.some_ne_none _ h.symm

/-- Edges are those of the chart, plain ones are required; conjuncts hang at the root, or at a lambda
variable if the root is the outermost one. -/
def Body.laid (schema : Schema) (chart : Chart) (L : Outlook) : Body.Condition where
  leaf _ _ _ := False
  edge root e := (chart.link e.target = some (root, e.hop) ∨ L.link e.target = some (root, e.hop)) ∧
    (e.isOptional = false → ∃ T, chart.kind root = some T ∧ T.Requires schema e.hop)
  conjunct root own := own = root ∨ root = L.top ∧ own ∈ L.bound

variable {schema : Schema} {L : Outlook} {w w' : Survey}

theorem Body.Each.laid_le {B : Body} {root : String} (hB : B.Each (laid schema w.chart L) root)
    (hw : w.Sound schema) (h : w ≤ w') : B.Each (laid schema w'.chart L) root := by
  refine hB.mono (fun _ _ _ => id) (fun r e he => ?_) (fun _ _ => id)
  refine ⟨?_, fun hopt => ?_⟩
  · exact he.1.imp (hw.link_le h) id
  · obtain ⟨T, hT, hreq⟩ := he.2 hopt
    exact ⟨T, hw.kind_le h hT, hreq⟩

/-- What is asked for at a position can be asked for there, now and later. -/
def Forest.Suits (schema : Schema) (L : Outlook) :
    Forest → Survey → Position → EntityType → Prop
  | nil, _, _, _ => True
  | cons (.property b) below rest, w, position, T =>
    (∃ p ∈ T.properties, b.Reads schema T p ∧ (p.isElementary = true → below = nil) ∧
      (p.isElementary = false → ∀ t, schema.targetType p = .ok t → ∀ w', w ≤ w' → ∀ r,
        w'.names.related? position.place p.name = some r →
          below.Suits schema L w' { position with place := r } t)) ∧
    rest.Suits schema L w position T
  | cons (.lambda name type) below rest, w, position, T =>
    (∃ found t, found.entityType = type ∧ t ∈ schema.types ∧
      (found.place = position.place ∨
        position.place.var = L.top ∧ L.lambda name = some (found.place, t)) ∧
      ∀ w', w ≤ w' → w'.names.resolve position.scope name = .ok found ∧
        w'.chart.kind found.place.var = some t ∧
        below.Suits schema L w' { position with place := found.place } t) ∧
    rest.Suits schema L w position T
  | cons (.any a) below rest, w, position, T =>
    (∃ found t, t ∈ schema.types ∧ L.link found.place.var = some (position.place.var, a.hop) ∧
      ∀ w', w ≤ w' → w'.names.resolve (position.scope.enter a.key) a.lambda = .ok found ∧
        w'.chart.kind found.place.var = some t ∧
        below.Suits schema L w' ⟨found.place, position.scope.enter a.key⟩ t) ∧
    rest.Suits schema L w position T

variable {position : Position} {T : EntityType}

theorem Forest.Suits.mono {forest : Forest} (h : forest.Suits schema L w position T) (hle : w ≤ w') :
    forest.Suits schema L w' position T := by
  induction forest with
  | nil => trivial
  | cons branch below rest _ ih =>
      cases branch with
      | property b =>
          obtain ⟨⟨p, hp, hreads, hvalue, hrelated⟩, hrest⟩ := h
          refine ⟨⟨p, hp, hreads, hvalue, fun he t ht w'' hle' => ?_⟩, ih hrest⟩
          exact hrelated he t ht w'' (hle.trans hle')
      | lambda name type =>
          obtain ⟨⟨found, t, htype, ht, hplace, hlater⟩, hrest⟩ := h
          exact ⟨⟨found, t, htype, ht, hplace, fun w'' hle' => hlater w'' (hle.trans hle')⟩, ih hrest⟩
      | any a =>
          obtain ⟨⟨found, t, ht, hlink, hlater⟩, hrest⟩ := h
          exact ⟨⟨found, t, ht, hlink, fun w'' hle' => hlater w'' (hle.trans hle')⟩, ih hrest⟩

/-- What placing one branch leads to: a place for what hangs below, and a route that is laid on the
chart. -/
structure Placement.Suits (schema : Schema) (L : Outlook) (w : Survey) (position : Position)
    (below : Forest) (placement : Placement) (w' : Survey) (t : EntityType) : Prop where
  becomes : w.Becomes schema placement.names w'
  kind : w'.chart.kind placement.position.place.var = some t
  suits : below.Suits schema L w' placement.position t
  route : ∀ {w''} {inner : Body}, w' ≤ w'' → (below = .nil → inner = .nil) →
    inner.Each (Body.laid schema w''.chart L) placement.position.place.var →
      (placement.route.wrap inner).Each (Body.laid schema w''.chart L) position.place.var

theorem Schema.OwnIds.value (hids : schema.OwnIds) (hs : schema.Accepted) (hw : w.Sound schema)
    {r : Place} {t : EntityType} (ht : w.chart.kind r.var = some t) {i : Property}
    (hi : t.property? idName = some i) :
    ∃ w', w.Becomes schema (w.names.value r idName).2 w' ∧
      w'.names.value? r idName = some (w.names.value r idName).1 ∧
      w'.chart.link (w.names.value r idName).1 = some (r.var, ⟨i.predicate, false⟩) ∧
      t.Requires schema ⟨i.predicate, false⟩ := by
  have hts := hw.declared ht
  obtain ⟨i', hmem, hname, hi', he, hm⟩ := hs.id hts
  obtain rfl : i = i' := Option.some.inj (hi.symm.trans hi')
  have hf := hids t hts i hi
  obtain ⟨w', hw', hv⟩ := hw.ownValue hs ht hmem he hf
  rw [hname] at hw' hv
  refine ⟨w', hw', hv, ?_, .value hmem he hf hm⟩
  obtain ⟨-, hl⟩ | ⟨navigation, -, hk, -⟩ :=
    hw'.sound.value_of hs (hw.kind_le hw'.le ht) hmem (by rw [hname]; exact hv)
  · exact hl
  · simp [hf] at hk

section Branches

variable (hs : schema.Accepted) (hw : w.Sound schema)
  (hT : w.chart.kind position.place.var = some T) {p : Property} (hp : p ∈ T.properties)
  {b : PropertyBranch} (hreads : b.Reads schema T p)

include hs hw hT hp hreads

theorem Branch.placement_suits_related (he : p.isElementary = false) {below : Forest}
    (hbelow : ∀ t, schema.targetType p = .ok t → ∀ w', w ≤ w' → ∀ r,
      w'.names.related? position.place p.name = some r →
        below.Suits schema L w' { position with place := r } t) :
    ∃ placement w' r t, (Branch.property b).placement position w.names = .ok placement ∧
      placement.Suits schema L w position below w' t ∧
      w'.names.related? position.place p.name = some r ∧ schema.targetType p = .ok t ∧
      placement.position = { position with place := r } ∧
      ∀ {inner : Body} {ws}, inner.Binds ws → (placement.route.wrap inner).Binds (r.var :: ws) := by
  have hcomplex : b.isComplex = true := by rw [hreads.isComplex, he]; rfl
  obtain ⟨w', hw', hr⟩ := hw.relatedPlace hs hT hp he
  obtain ⟨-, t, h, ht, hh, hk, hl⟩ := hw'.sound.related_of hs (hw.kind_le hw'.le hT) hp hr
  have hhop := hreads.relatedHop he
  obtain rfl : b.hop = h := Except.ok.inj (hhop.symm.trans hh)
  refine ⟨_, w', _, t, Branch.placement_related hcomplex, ?_, hr, ht, by rw [hreads.name], ?_⟩
  swap
  · intro inner ws hws
    rw [hreads.name]
    have hedge := hws.below_edge ⟨b.hop, !(b.isSingle && b.isMandatory),
      (w.names.relatedPlace position.place p.name).1.var⟩
    by_cases hsingle : b.isSingle = true
    · simpa [Route.wrap, Step.wrap, hsingle] using hedge.in_alternative true
    · simpa [Route.wrap, Step.wrap, hsingle] using hedge.in_alternative false
  rw [hreads.name]
  refine ⟨hw', hk, hbelow t ht w' hw'.le _ hr, ?_⟩
  intro w'' inner hle _ hinner
  have hedge : (Body.laid schema w''.chart L).edge position.place.var
      ⟨b.hop, !(b.isSingle && b.isMandatory), (w.names.relatedPlace position.place p.name).1.var⟩ := by
    refine ⟨Or.inl (hw'.sound.link_le hle hl), fun hopt => ?_⟩
    obtain ⟨hsingle, hmand⟩ : b.isSingle = true ∧ b.isMandatory = true := by simpa using hopt
    rw [hreads.isSingle] at hsingle
    rw [hreads.isMandatory] at hmand
    exact ⟨T, hw.kind_le (hw'.le.trans hle) hT, .related hp he hsingle hmand hhop⟩
  by_cases hsingle : b.isSingle = true
  · rw [if_pos hsingle]
    exact ⟨⟨hedge, hinner, trivial⟩, trivial⟩
  · rw [if_neg hsingle]
    exact ⟨⟨hedge, hinner, trivial⟩, trivial⟩

theorem Branch.placement_suits_value (he : p.isElementary = true) (hf : p.foreignKeyOf = none)
    (hkey : b.foreignKey = none) :
    ∃ placement w' v, (Branch.property b).placement position w.names = .ok placement ∧
      placement.Suits schema L w position .nil w' T ∧
      w'.names.value? position.place p.name = some v ∧ (placement.route.wrap .nil).Binds [v] ∧
      (p.isId = true → p.isMandatory = true → v ∈ (placement.route.wrap .nil).plainTargets) := by
  have hsimple : b.isComplex = false := by rw [hreads.isComplex, he]; rfl
  obtain ⟨w', hw', hv⟩ := hw.ownValue hs hT hp he hf
  have hl : w'.chart.link (w.names.value position.place p.name).1 =
      some (position.place.var, ⟨p.predicate, false⟩) := by
    obtain ⟨-, hl⟩ | ⟨navigation, -, hk, -⟩ :=
      hw'.sound.value_of hs (hw.kind_le hw'.le hT) hp hv
    · exact hl
    · simp [hf] at hk
  have hid : b.isId = p.isId := by rw [PropertyBranch.isId, hreads.name, Property.isId]
  refine ⟨_, w', _, Branch.placement_value hsimple hkey, ?_, hv, ?_, ?_⟩
  rotate_left
  · rw [hreads.name]
    have hedge := (Body.Binds.nothing .nil).below_edge
      ⟨⟨b.hop.predicate, false⟩, !b.isMandatory, (w.names.value position.place p.name).1⟩
    cases !b.isId && b.isMandatory with
    | true => exact hedge.in_alternative true
    | false => exact hedge
  · intro hisId hmand
    rw [hreads.name, hid, hreads.isMandatory, hisId, hmand]
    simp [Route.wrap, Step.wrap, Body.plainTargets]
  rw [hreads.name, hreads.valueHop he]
  refine ⟨hw', hw.kind_le hw'.le hT, trivial, ?_⟩
  intro w'' inner hle hnil _
  obtain rfl := hnil rfl
  have hedge : (Body.laid schema w''.chart L).edge position.place.var
      ⟨⟨p.predicate, false⟩, !b.isMandatory, (w.names.value position.place p.name).1⟩ := by
    refine ⟨Or.inl (hw'.sound.link_le hle hl), fun hopt => ?_⟩
    have hmand : b.isMandatory = true := by simpa using hopt
    rw [hreads.isMandatory] at hmand
    exact ⟨T, hw.kind_le (hw'.le.trans hle) hT, .value hp he hf hmand⟩
  cases !b.isId && b.isMandatory with
  | true => exact ⟨⟨hedge, trivial, trivial⟩, trivial⟩
  | false => exact ⟨hedge, trivial, trivial⟩

theorem Branch.placement_suits_foreignKey (hids : schema.OwnIds) (he : p.isElementary = true)
    {related i : Property} (hrel : related ∈ T.properties) {t : EntityType} {h : Hop}
    (hf : p.foreignKeyOf = some related.name) (hrelem : related.isElementary = false)
    (htarget : schema.targetType related = .ok t) (hh : schema.hop related = .ok h)
    (hid : t.property? idName = some i)
    (hkey : b.foreignKey = some ⟨related.name, h, i.predicate⟩) :
    ∃ placement w' r v, (Branch.property b).placement position w.names = .ok placement ∧
      placement.Suits schema L w position .nil w' T ∧
      w'.names.related? position.place related.name = some r ∧ w'.names.value? r idName = some v ∧
      w'.names.value? position.place p.name = some v ∧
      (placement.route.wrap .nil).Binds [r.var, v] := by
  have hsimple : b.isComplex = false := by rw [hreads.isComplex, he]; rfl
  obtain ⟨w₁, hw₁, hr⟩ := hw.relatedPlace hs hT hrel hrelem
  have hT₁ := hw.kind_le hw₁.le hT
  obtain ⟨-, t', h', ht', hh', hk₁, hl₁⟩ := hw₁.sound.related_of hs hT₁ hrel hr
  obtain rfl : t = t' := Except.ok.inj (htarget.symm.trans ht')
  obtain rfl : h = h' := Except.ok.inj (hh.symm.trans hh')
  have h₁ : w.names.relatedPlace position.place related.name =
      ((w.names.relatedPlace position.place related.name).1, w₁.names) :=
    Prod.ext rfl hw₁.names_eq.symm
  generalize (w.names.relatedPlace position.place related.name).1 = r at h₁ hr hl₁ hk₁
  obtain ⟨w₂, hw₂, hv, hl₂, hreq⟩ := hids.value hs hw₁.sound hk₁ hid
  have hT₂ := hw₁.sound.kind_le hw₂.le hT₁
  obtain ⟨w₃, hw₃, hv₃⟩ := hw₂.sound.link hs hT₂ hp he hf (hw₂.le.related hr) hv
  have h₂ : w₁.names.value r idName = ((w₁.names.value r idName).1, w₂.names) :=
    Prod.ext rfl hw₂.names_eq.symm
  have hplaced := Branch.placement_foreignKey hsimple hkey h₁ h₂
  refine ⟨_, w₃, r, _, hplaced, ⟨⟨?_, hw₃.sound, ?_, ?_⟩, hw₂.sound.kind_le hw₃.le hT₂, trivial, ?_⟩,
    hw₃.le.related (hw₂.le.related hr), hw₃.le.value hv, hv₃, ?_⟩
  · calc w ≤ w₁ := hw₁.le
      _ ≤ w₂ := hw₂.le
      _ ≤ w₃ := hw₃.le
  · exact hw₃.keys.trans (hw₂.keys.trans hw₁.keys)
  · rw [hreads.name]
    exact hw₃.names_eq
  · intro w'' inner hle hnil _
    obtain rfl := hnil rfl
    have hle₂ := hw₃.le.trans hle
    have hle₁ := hw₂.le.trans hle₂
    refine ⟨⟨⟨Or.inl (hw₁.sound.link_le hle₁ hl₁), fun hopt => ?_⟩,
      ⟨⟨?_, fun _ => ?_⟩, trivial, trivial⟩, trivial⟩, trivial⟩
    · have hmand : b.isMandatory = true := by simpa using hopt
      rw [hreads.isMandatory] at hmand
      exact ⟨T, hw₁.sound.kind_le hle₁ hT₁, .foreignKey hp hmand hf hrel hh⟩
    · exact Or.inl (hw₂.sound.link_le hle₂ hl₂)
    · exact ⟨t, hw₁.sound.kind_le hle₁ hk₁, hreq⟩
  · exact (((Body.Binds.nothing .nil).below_edge _).below_edge
      ⟨h, !b.isMandatory, r.var⟩).in_alternative true

end Branches

theorem Branch.placement_suits (hs : schema.Accepted) (hids : schema.OwnIds) (hw : w.Sound schema)
    (hT : w.chart.kind position.place.var = some T) {branch : Branch} {below rest : Forest}
    (h : (Forest.cons branch below rest).Suits schema L w position T) :
    ∃ placement w' t, branch.placement position w.names = .ok placement ∧
      placement.Suits schema L w position below w' t := by
  cases branch with
  | lambda name type =>
      obtain ⟨⟨found, t, -, -, hplace, hlater⟩, -⟩ := h
      obtain ⟨hresolve, hkind, hbelow⟩ := hlater w (le_refl w)
      refine ⟨_, w, t, Branch.placement_lambda hresolve, .refl hw, hkind, hbelow, ?_⟩
      intro w'' inner _ _ hinner
      refine ⟨hplace.imp (congrArg Place.var) fun h => ⟨h.1, name, found.place, t, h.2, rfl⟩, hinner, trivial⟩
  | any a =>
      obtain ⟨⟨found, t, -, hlink, hlater⟩, -⟩ := h
      obtain ⟨hresolve, hkind, hbelow⟩ := hlater w (le_refl w)
      refine ⟨_, w, t, Branch.placement_any hresolve, .refl hw, hkind, hbelow, ?_⟩
      intro w'' inner hle _ hinner
      exact ⟨⟨Or.inr hlink, by simp⟩, hinner, trivial⟩
  | property b =>
      obtain ⟨⟨p, hp, hreads, hvalue, hrelated⟩, -⟩ := h
      cases he : p.isElementary with
      | false =>
          obtain ⟨placement, w', r, t, hplaced, hsuits, -⟩ :=
            Branch.placement_suits_related hs hw hT hp hreads he (hrelated he)
          exact ⟨placement, w', t, hplaced, hsuits⟩
      | true =>
          obtain rfl := hvalue he
          obtain ⟨hf, hkey⟩ | ⟨related, hrel, t, -, i, -, h, -, hf, hrelem, -, htarget, hh, hid, hkey⟩ :=
            hreads.foreignKey
          · obtain ⟨placement, w', v, hplaced, hsuits, -⟩ :=
              Branch.placement_suits_value hs hw hT hp hreads he hf hkey
            exact ⟨placement, w', T, hplaced, hsuits⟩
          · obtain ⟨placement, w', r, v, hplaced, hsuits, -⟩ :=
              Branch.placement_suits_foreignKey hs hw hT hp hreads hids he hrel hf hrelem htarget hh
                hid hkey
            exact ⟨placement, w', T, hplaced, hsuits⟩

/-- A forest that suits the type can be placed, and its pattern is laid on the chart. -/
theorem Forest.place_suits (hs : schema.Accepted) (hids : schema.OwnIds) {forest : Forest}
    (hw : w.Sound schema) (hT : w.chart.kind position.place.var = some T)
    (h : forest.Suits schema L w position T) :
    ∃ w', w.Becomes schema (forest.place Rule.builtin position w.names).names w' ∧
      (forest.place Rule.builtin position w.names).failure = none ∧
      (forest.place Rule.builtin position w.names).body.Each (Body.laid schema w'.chart L)
        position.place.var := by
  induction forest generalizing w position T with
  | nil => exact ⟨w, .refl hw, rfl, trivial⟩
  | cons branch below rest ihBelow ih =>
      obtain ⟨placement, w₁, t, hplaced, hstep⟩ := Branch.placement_suits hs hids hw hT h
      obtain ⟨w₂, hw₂, hfailure, hinner⟩ := ihBelow hstep.becomes.sound hstep.kind hstep.suits
      rw [hstep.becomes.names_eq] at hw₂ hfailure hinner
      have hle := hstep.becomes.le.trans hw₂.le
      have hrest : rest.Suits schema L w₂ position T := by
        cases branch <;> exact h.2.mono hle
      obtain ⟨w₃, hw₃, hfailure', hafter⟩ := ih hw₂.sound (hw.kind_le hle hT) hrest
      rw [hw₂.names_eq] at hw₃ hfailure' hafter
      have hroute := hstep.route hw₂.le (by rintro rfl; rfl) hinner
      simp only [place_cons, hplaced, hfailure]
      exact ⟨w₃, (hstep.becomes.trans hw₂).trans hw₃, hfailure',
        (hroute.laid_le hw₂.sound hw₃.le).merge hafter⟩

end EntityGraph
