import EntityGraph.Expand.Compile
import EntityGraph.Proofs.Placement.Suits

/-!
# The pattern of an expanded read

The shape that an expand tree gives at a type shows the properties of the type one after the other.
Its branches suit the type, so that they can be placed; and the pattern that results tracks the shape:
every value and every related entity that the shape shows has a variable, and there is a way through
the pattern to it, on which all ways through the related entity's own pattern go on.
-/
namespace EntityGraph

/-- What is shown of an entity with these properties: its values, and the related entities that are
expanded. -/
inductive Shape.Shows (schema : Schema) : ExpandTree → List Property → Shape → Prop
  | nil {expand : ExpandTree} : Shows schema expand [] .nil
  | value {expand : ExpandTree} {p : Property} {ps : List Property} {rest : Shape}
      (he : p.isElementary = true) (h : Shows schema expand ps rest) :
      Shows schema expand (p :: ps) (.value p rest)
  | skip {expand : ExpandTree} {p : Property} {ps : List Property} {shape : Shape}
      (he : p.isElementary = false) (hc : expand.child? p.name = none)
      (h : Shows schema expand ps shape) : Shows schema expand (p :: ps) shape
  | navigation {expand sub : ExpandTree} {p : Property} {t : EntityType} {ps : List Property}
      {below rest : Shape} (he : p.isElementary = false) (hc : expand.child? p.name = some sub)
      (ht : schema.targetType p = .ok t) (hbelow : Shows schema sub t.properties below)
      (h : Shows schema expand ps rest) :
      Shows schema expand (p :: ps) (.navigation p t below rest)

theorem ExpandTree.sizeOf_child? {expand sub : ExpandTree} {name : String}
    (h : expand.child? name = some sub) : sizeOf sub < sizeOf expand := by
  induction expand with
  | nil => simp [child?] at h
  | cons other below rest _ ih =>
      unfold child? at h
      simp only [cons.sizeOf_spec]
      split at h
      · obtain rfl : below = sub := by simpa using h
        omega
      · have := ih h
        omega

namespace Shape

variable {schema : Schema} {T : EntityType}

theorem lookup_children {p : Property} (hp : T.property? p.name = some p) (expand : ExpandTree) :
    (children schema expand T).lookup p.name = (expand.child? p.name).map fun sub => do
      let target ← schema.targetType p
      let shape ← ofExpand schema target sub
      return (target, shape) := by
  induction expand with
  | nil => rfl
  | cons name below rest _ ih =>
      unfold children ExpandTree.child?
      by_cases hname : name = p.name
      · subst hname
        rw [hp, if_pos rfl]
        simp only [List.lookup_cons_self, Option.map_some]
        rfl
      · rw [if_neg hname, ← ih]
        cases T.property? name with
        | none => rfl
        | some p' =>
            have hbeq : (p.name == name) = false := by simpa using fun h : p.name = name => hname h.symm
            simp only [List.lookup_cons, hbeq]

theorem shows_ofProperties (hs : schema.Accepted) {expand : ExpandTree} (hT : T ∈ schema.types)
    {ps : List Property} (hps : ∀ p ∈ ps, p ∈ T.properties) {shape : Shape}
    (h : ofProperties (children schema expand T) ps = .ok shape) : Shows schema expand ps shape := by
  induction hsize : sizeOf expand using Nat.strong_induction_on generalizing expand T ps shape with
  | _ size ih =>
      induction ps generalizing shape with
      | nil =>
          obtain rfl : Shape.nil = shape := by simpa [ofProperties] using h
          exact .nil
      | cons p ps ihps =>
          obtain ⟨hp, hps⟩ := List.forall_mem_cons.mp hps
          unfold ofProperties at h
          cases he : p.isElementary with
          | true =>
              rw [he, if_pos rfl] at h
              cases hrest : ofProperties (children schema expand T) ps with
              | error e => simp [hrest, bind, Except.bind] at h
              | ok rest =>
                  obtain rfl : Shape.value p rest = shape := by
                    simpa [hrest, bind, Except.bind, pure, Except.pure] using h
                  exact .value he (ihps hps hrest)
          | false =>
              rw [he, if_neg (by simp), lookup_children (hs.property? hT hp)] at h
              cases hc : expand.child? p.name with
              | none =>
                  rw [hc, Option.map_none] at h
                  exact .skip he hc (ihps hps h)
              | some sub =>
                  obtain ⟨t, ht, htarget⟩ := hs.targetType hT hp he
                  rw [hc, Option.map_some] at h
                  cases hbelow : ofExpand schema t sub with
                  | error e => simp [htarget, hbelow, bind, Except.bind] at h
                  | ok below =>
                      cases hrest : ofProperties (children schema expand T) ps with
                      | error e => simp [htarget, hbelow, hrest, bind, Except.bind, pure, Except.pure] at h
                      | ok rest =>
                          obtain rfl : Shape.navigation p t below rest = shape := by
                            simpa [htarget, hbelow, hrest, bind, Except.bind, pure, Except.pure] using h
                          have hlt := hsize ▸ ExpandTree.sizeOf_child? hc
                          exact .navigation he hc htarget (ih _ hlt ht (fun _ => id) hbelow rfl)
                            (ihps hps hrest)

theorem shows_ofExpand (hs : schema.Accepted) {expand : ExpandTree} (hT : T ∈ schema.types)
    {shape : Shape} (h : ofExpand schema T expand = .ok shape) :
    Shows schema expand T.properties shape :=
  shows_ofProperties hs hT (fun _ => id) h

theorem exists_ofProperties (hs : schema.Accepted) (expand : ExpandTree) (hT : T ∈ schema.types)
    {ps : List Property} (hps : ∀ p ∈ ps, p ∈ T.properties) :
    ∃ shape, ofProperties (children schema expand T) ps = .ok shape := by
  induction hsize : sizeOf expand using Nat.strong_induction_on generalizing expand T ps with
  | _ size ih =>
      induction ps with
      | nil => exact ⟨.nil, rfl⟩
      | cons p ps ihps =>
          obtain ⟨hp, hps⟩ := List.forall_mem_cons.mp hps
          obtain ⟨rest, hrest⟩ := ihps hps
          unfold ofProperties
          cases he : p.isElementary with
          | true => exact ⟨.value p rest, by simp [hrest, bind, Except.bind, pure, Except.pure]⟩
          | false =>
              rw [if_neg (by simp), lookup_children (hs.property? hT hp)]
              cases hc : expand.child? p.name with
              | none => exact ⟨rest, by simp [hrest]⟩
              | some sub =>
                  obtain ⟨t, ht, htarget⟩ := hs.targetType hT hp he
                  obtain ⟨below, hbelow⟩ :=
                    ih _ (hsize ▸ ExpandTree.sizeOf_child? hc) sub ht (fun _ => id) rfl
                  refine ⟨.navigation p t below rest, ?_⟩
                  simp [htarget, ofExpand, hbelow, hrest, bind, Except.bind, pure, Except.pure]

theorem exists_ofExpand (hs : schema.Accepted) (expand : ExpandTree) (hT : T ∈ schema.types) :
    ∃ shape, ofExpand schema T expand = .ok shape :=
  exists_ofProperties hs expand hT fun _ => id

theorem Shows.suits (hs : schema.Accepted) (hT : T ∈ schema.types) {expand : ExpandTree}
    {ps : List Property} {shape : Shape} (h : Shows schema expand ps shape)
    (hps : ∀ p ∈ ps, p ∈ T.properties) :
    ∃ forest, shape.forest schema T = .ok forest ∧
      ∀ L w position, forest.Suits schema L w position T := by
  induction h generalizing T with
  | nil => exact ⟨.nil, rfl, fun _ _ _ => trivial⟩
  | @value expand p ps rest he _ ih =>
      obtain ⟨hp, hps⟩ := List.forall_mem_cons.mp hps
      obtain ⟨forest, hforest, hsuits⟩ := ih hT hps
      obtain ⟨b, hb, hreads⟩ := hs.ofProperty hT hp
      refine ⟨.cons (.property b) .nil forest, ?_, fun L w position => ?_⟩
      · simp [Shape.forest, hb, hforest, bind, Except.bind, pure, Except.pure]
      · refine ⟨⟨p, hp, hreads, fun _ => rfl, fun hne => ?_⟩, hsuits L w position⟩
        simp [he] at hne
  | skip _ _ _ ih => exact ih hT (List.forall_mem_cons.mp hps).2
  | @navigation expand sub p t ps below rest he hc ht _ _ ihBelow ih =>
      obtain ⟨hp, hps⟩ := List.forall_mem_cons.mp hps
      obtain ⟨t', ht', htarget⟩ := hs.targetType hT hp he
      obtain rfl : t = t' := Except.ok.inj (ht.symm.trans htarget)
      obtain ⟨inner, hinner, hbelow⟩ := ihBelow ht' fun _ => id
      obtain ⟨forest, hforest, hsuits⟩ := ih hT hps
      obtain ⟨b, hb, hreads⟩ := hs.ofProperty hT hp
      refine ⟨.cons (.property b) inner forest, ?_, fun L w position => ?_⟩
      · simp [Shape.forest, hb, hinner, hforest, bind, Except.bind, pure, Except.pure]
      · refine ⟨⟨p, hp, hreads, fun helem => ?_, fun _ t'' ht'' w' _ r _ => ?_⟩, hsuits L w position⟩
        · simp [he] at helem
        · obtain rfl : t = t'' := Except.ok.inj (ht.symm.trans ht'')
          exact hbelow L w' _

/-- Everything that the shape shows has a variable, and a way through the pattern leads to it. -/
def Tracked (names : Naming) : Shape → Place → Body → Prop
  | nil, _, _ => True
  | value p rest, q, B =>
    (∃ v, names.value? q p.name = some v ∧ (p.isId = true → v ∈ B.plainTargets) ∧
      ((p.foreignKeyOf = none ∧ B.Binds [v]) ∨ ∃ navigation r, p.foreignKeyOf = some navigation ∧
        names.related? q navigation = some r ∧ names.value? r idName = some v ∧
        B.Binds [r.var, v])) ∧
    rest.Tracked names q B
  | navigation p _ below rest, q, B =>
    (∃ r inner, names.related? q p.name = some r ∧ below.Tracked names r inner ∧
      ∀ ws, inner.Binds ws → B.Binds (r.var :: ws)) ∧
    rest.Tracked names q B

theorem Tracked.mono {w w' : Survey} (hle : w ≤ w') {shape : Shape} {q : Place} {B M : Body}
    (h : shape.Tracked w.names q B) (hcovers : B.Covers M) : shape.Tracked w'.names q M := by
  induction shape generalizing q B M with
  | nil => trivial
  | value p rest ih =>
      obtain ⟨⟨v, hv, hid, hbinds⟩, hrest⟩ := h
      refine ⟨⟨v, hle.value hv, fun hi => hcovers.plain v (hid hi), ?_⟩, ih hrest hcovers⟩
      obtain ⟨hf, hbinds⟩ | ⟨navigation, r, hf, hr, hrv, hbinds⟩ := hbinds
      · exact Or.inl ⟨hf, hcovers.binds hbinds⟩
      · exact Or.inr ⟨navigation, r, hf, hle.related hr, hle.value hrv, hcovers.binds hbinds⟩
  | navigation p t below rest ihBelow ih =>
      obtain ⟨⟨r, inner, hr, hbelow, hbinds⟩, hrest⟩ := h
      exact ⟨⟨r, inner, hle.related hr, ihBelow hbelow (.refl inner),
        fun ws hws => hcovers.binds (hbinds ws hws)⟩, ih hrest hcovers⟩

theorem isId_iff {p : Property} : p.isId = true ↔ p.name = idName := by
  simp [Property.isId]

/-- The pattern of a value tracks it, whether it is the entity's own or the identifier of a related one. -/
theorem placement_tracked (hs : schema.Accepted) (hids : schema.OwnIds) {w : Survey} (hw : w.Sound schema)
    {position : Position} (hT : w.chart.kind position.place.var = some T) {p : Property}
    (hp : p ∈ T.properties) (he : p.isElementary = true) {b : PropertyBranch} (hreads : b.Reads schema T p) :
    ∃ placement w', (Branch.property b).placement position w.names = .ok placement ∧
      placement.Suits schema ∅ w position .nil w' T ∧
      (value p nil).Tracked w'.names position.place (placement.route.wrap .nil) := by
  have hTs := hw.declared hT
  have hown : p.isId = true → p.isMandatory = true ∧ p.foreignKeyOf = none := by
    intro hisId
    obtain ⟨i, -, -, hi, -, hmand⟩ := hs.id hTs
    have hpi := hs.property? hTs hp
    rw [isId_iff.mp hisId] at hpi
    obtain rfl : p = i := Option.some.inj (hpi.symm.trans hi)
    exact ⟨hmand, hids T hTs p hpi⟩
  obtain ⟨hf, hkey⟩ | ⟨related, hrel, t, -, i, -, h, -, hf, hrelem, -, htarget, hh, hid, hkey⟩ :=
    hreads.foreignKey
  · obtain ⟨placement, w', v, hplaced, hsuits, hv, hbinds, hid⟩ :=
      Branch.placement_suits_value (L := ∅) hs hw hT hp hreads he hf hkey
    exact ⟨placement, w', hplaced, hsuits, ⟨v, hv, fun hisId => hid hisId (hown hisId).1,
      Or.inl ⟨hf, hbinds⟩⟩, trivial⟩
  · obtain ⟨placement, w', r, v, hplaced, hsuits, hr, hrv, hv, hbinds⟩ :=
      Branch.placement_suits_foreignKey (L := ∅) hs hw hT hp hreads hids he hrel hf hrelem htarget
        hh hid hkey
    refine ⟨placement, w', hplaced, hsuits, ⟨v, hv, fun hisId => ?_,
      Or.inr ⟨related.name, r, hf, hr, hrv, hbinds⟩⟩, trivial⟩
    simp [(hown hisId).2] at hf

theorem Shows.place (hs : schema.Accepted) (hids : schema.OwnIds) {expand : ExpandTree}
    {ps : List Property} {shape : Shape} (h : Shows schema expand ps shape)
    (hps : ∀ p ∈ ps, p ∈ T.properties) {w : Survey} (hw : w.Sound schema) {position : Position}
    (hT : w.chart.kind position.place.var = some T) {forest : Forest}
    (hforest : shape.forest schema T = .ok forest) :
    ∃ w', w.Becomes schema (forest.place Rule.builtin position w.names).names w' ∧
      (forest.place Rule.builtin position w.names).failure = none ∧
      shape.Tracked w'.names position.place (forest.place Rule.builtin position w.names).body := by
  induction h generalizing T w position forest with
  | nil =>
      obtain rfl : Forest.nil = forest := by simpa [Shape.forest] using hforest
      exact ⟨w, .refl hw, rfl, trivial⟩
  | @value expand p ps rest he hrest ih =>
      obtain ⟨hp, hps⟩ := List.forall_mem_cons.mp hps
      have hTs := hw.declared hT
      obtain ⟨b, hb, hreads⟩ := hs.ofProperty hTs hp
      obtain ⟨restForest, hrestForest, -⟩ := hrest.suits hs hTs hps
      obtain rfl : Forest.cons (.property b) .nil restForest = forest := by
        simpa [Shape.forest, hb, hrestForest, bind, Except.bind, pure, Except.pure] using hforest
      obtain ⟨placement, w₁, hplaced, hstep, hvalue⟩ := placement_tracked hs hids hw hT hp he hreads
      obtain ⟨w₂, hw₂, hfailure, htracked⟩ :=
        ih hps hstep.becomes.sound (hw.kind_le hstep.becomes.le hT) hrestForest
      rw [hstep.becomes.names_eq] at hw₂ hfailure htracked
      simp only [Forest.place_cons, hplaced, Forest.place_nil]
      exact ⟨w₂, hstep.becomes.trans hw₂, hfailure, (hvalue.mono hw₂.le (Body.covers_merge_left _ _)).1,
        htracked.mono (le_refl w₂) (Body.covers_merge_right _ _)⟩
  | skip _ _ _ ih => exact ih (List.forall_mem_cons.mp hps).2 hw hT hforest
  | @navigation expand sub p t ps below rest he hc ht hbelow hrest ihBelow ih =>
      obtain ⟨hp, hps⟩ := List.forall_mem_cons.mp hps
      have hTs := hw.declared hT
      obtain ⟨t', ht', htarget⟩ := hs.targetType hTs hp he
      obtain rfl : t = t' := Except.ok.inj (ht.symm.trans htarget)
      obtain ⟨b, hb, hreads⟩ := hs.ofProperty hTs hp
      obtain ⟨inner, hinner, hsuits⟩ := hbelow.suits hs ht' fun _ => id
      obtain ⟨restForest, hrestForest, -⟩ := hrest.suits hs hTs hps
      obtain rfl : Forest.cons (.property b) inner restForest = forest := by
        simpa [Shape.forest, hb, hinner, hrestForest, bind, Except.bind, pure, Except.pure] using hforest
      have hbelows : ∀ t', schema.targetType p = .ok t' → ∀ w', w ≤ w' → ∀ r,
          w'.names.related? position.place p.name = some r →
            inner.Suits schema ∅ w' { position with place := r } t' := by
        intro t' ht' w' _ r _
        obtain rfl : t = t' := Except.ok.inj (ht.symm.trans ht')
        exact hsuits ∅ w' _
      obtain ⟨placement, w₁, r, t', hplaced, hstep, hr, ht₁, hposition, hbinds⟩ :=
        Branch.placement_suits_related hs hw hT hp hreads he hbelows
      obtain rfl : t = t' := Except.ok.inj (ht.symm.trans ht₁)
      obtain ⟨w₂, hw₂, hfailure₂, htracked₂⟩ :=
        ihBelow (fun _ => id) hstep.becomes.sound hstep.kind hinner
      rw [hstep.becomes.names_eq] at hw₂ hfailure₂ htracked₂
      have hle := hstep.becomes.le.trans hw₂.le
      obtain ⟨w₃, hw₃, hfailure₃, htracked₃⟩ := ih hps hw₂.sound (hw.kind_le hle hT) hrestForest
      rw [hw₂.names_eq] at hw₃ hfailure₃ htracked₃
      simp only [Forest.place_cons, hplaced, hfailure₂]
      refine ⟨w₃, (hstep.becomes.trans hw₂).trans hw₃, hfailure₃,
        ⟨r, (inner.place Rule.builtin placement.position placement.names).body,
          hw₃.le.related (hw₂.le.related hr), ?_, fun ws hws => ?_⟩, ?_⟩
      · have hplace : placement.position.place = r := by rw [hposition]
        rw [hplace] at htracked₂
        exact htracked₂.mono hw₃.le (.refl _)
      · exact (Body.covers_merge_left _ _).binds (hbinds hws)
      · exact htracked₃.mono (le_refl w₃) (Body.covers_merge_right _ _)

end Shape
end EntityGraph
