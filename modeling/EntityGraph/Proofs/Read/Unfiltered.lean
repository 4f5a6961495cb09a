import EntityGraph.Proofs.Read.Rows
import EntityGraph.Read.Compile

/-!
# Reading all entities of a type

The pattern of an expanded read starts with the class of the type and has the branches of the shape,
placed from the first variable on. Decoding its rows gives one record for each instance of the type.
-/
namespace EntityGraph

open Sparql

/-- What is known before anything is compiled: the type of the entity that the query starts from. -/
def Survey.start (T : EntityType) : Survey where
  names := Reader.startingPosition.2
  chart := {
    link := fun _ => none
    kind := fun v => if v = Reader.startingPosition.1.place.var then some T else none }
  keys := ∅

theorem Survey.start_sound {schema : Schema} {T : EntityType} (hT : T ∈ schema.types) :
    (Survey.start T).Sound schema where
  ordered v r h hl := by simp [start] at hl
  declared {v T'} hk := by
    simp only [start] at hk
    split at hk
    · rwa [← Option.some.inj hk]
    · simp at hk
  edge {v r h} hl := by simp [start] at hl
  linked {v l} hl := by simp [start] at hl
  kinded {v T'} hk := by
    simp only [start] at hk
    split at hk
    · next hv => exact ⟨0, Nat.zero_lt_one, hv⟩
    · simp at hk
  related {q name r} hr := absurd (show (none : Option Place) = some r from hr) (by simp)
  value {q name v} hv := absurd (show (none : Option String) = some v from hv) (by simp)
  scopes scope name found h := absurd (show (none : Option Namespace) = some found from h) (by simp)

theorem Survey.start_kind (T : EntityType) :
    (Survey.start T).chart.kind Reader.startingPosition.1.place.var = some T := by
  simp [start]

theorem Body.leaf_merge {c : Condition} (hc : ∀ root predicate term, ¬ c.leaf root predicate term)
    {predicate term root : String} {B C : Body} (hC : C.Each c root) :
    (leaf predicate term B).merge C = leaf predicate term (B.merge C) := by
  induction C generalizing B with
  | nil => rfl
  | leaf p t rest ih => exact absurd hC.1 (hc root p t)
  | edge e below rest _ ih => exact ih hC.2.2
  | alternative isSlot body rest _ ih =>
      cases isSlot with
      | true => exact ih hC.2
      | false => exact ih hC.2
  | conjunct own body rest _ ih => exact ih hC.2.2

section Compile

variable {schema : Schema} {T : EntityType} {expand : ExpandTree} {rules : List Rule}
  {position : Position} {names names' : Naming} {pattern : Pattern}

theorem ExpandTree.compile_ok
    (h : expand.compile schema rules T position names = .ok (pattern, names')) :
    ∃ shape forest, Shape.ofExpand schema T expand = .ok shape ∧
      shape.forest schema T = .ok forest ∧
      (forest.place rules position names).failure = none ∧
      names' = (forest.place rules position names).names ∧
      pattern = ⟨position.place.var, (classBody T).merge (forest.place rules position names).body⟩ := by
  unfold compile at h
  split at h
  · simp at h
  · next forest hselect =>
      unfold select at hselect
      split at hselect
      · simp at hselect
      · cases hshape : Shape.ofExpand schema T expand with
        | error e => simp [hshape, bind, Except.bind] at hselect
        | ok shape =>
            simp only [hshape, bind, Except.bind] at hselect
            unfold Forest.placeAll at h
            cases hfailure : (forest.place rules position names).failure with
            | some e => simp [hfailure] at h
            | none =>
                obtain ⟨rfl, rfl⟩ : _ = pattern ∧ _ = names' := by simpa [hfailure] using h
                exact ⟨shape, forest, rfl, hselect, hfailure, rfl, rfl⟩

def EntityType.withClass (T : EntityType) (body : Body) : Body :=
  match T.rdfClass with
  | some c => .leaf "rdf:type" c body
  | none => body

variable {w : Survey}

/-- What an expanded read is compiled to from the start: a pattern that is laid on the chart and
tracks the shape. -/
theorem ExpandTree.compile_start (hs : schema.Accepted) (hids : schema.OwnIds) (hT : T ∈ schema.types)
    (hc : expand.compile schema Rule.builtin T Reader.startingPosition.1 Reader.startingPosition.2 =
      .ok (pattern, names)) :
    ∃ w shape, w.names = names ∧ (Survey.start T) ≤ w ∧ w.Sound schema ∧ w.keys = ∅ ∧
      pattern.root = Reader.startingPosition.1.place.var ∧
      Shape.ofExpand schema T expand = .ok shape ∧
      shape.Tracked w.names Reader.startingPosition.1.place pattern.body ∧
      ∃ body : Body, body.Each (Body.laid schema w.chart ∅) pattern.root ∧
        pattern.body = T.withClass body := by
  obtain ⟨shape, forest, hshape, hforest, -, rfl, rfl⟩ := compile_ok hc
  have hstart := Survey.start_sound hT
  have hkind := Survey.start_kind T
  have hshows := Shape.shows_ofExpand hs hT hshape
  obtain ⟨forest', hforest', hsuits⟩ := hshows.suits hs hT fun _ h => h
  obtain rfl : forest = forest' := Except.ok.inj (hforest.symm.trans hforest')
  obtain ⟨w, hw, -, hlaid⟩ := Forest.place_suits hs hids hstart hkind (hsuits ∅ _ _)
  obtain ⟨w', hw', -, htracked⟩ := hshows.place hs hids (fun _ h => h) hstart hkind hforest
  have hnames : w'.names = w.names := hw'.names_eq.trans hw.names_eq.symm
  rw [hnames] at htracked
  refine ⟨w, shape, hw.names_eq, hw.le, hw.sound, hw.keys, rfl, hshape,
    htracked.mono (le_refl w) (Body.covers_merge_right _ _), ?_⟩
  have hbody := Body.Each.merge (B := .nil) trivial hlaid
  refine ⟨_, hbody, ?_⟩
  unfold classBody EntityType.withClass
  cases T.rdfClass with
  | none => rfl
  | some c => exact Body.leaf_merge (fun _ _ _ => id) hlaid

theorem EntityType.each_withClass {c : Body.Condition} {root : String} {body : Body}
    (hleaf : ∀ name, T.rdfClass = some name → c.leaf root "rdf:type" name) (h : body.Each c root) :
    (T.withClass body).Each c root := by
  unfold withClass
  split
  · next name hname => exact ⟨hleaf name hname, h⟩
  · exact h

theorem Body.Each.fits {B : Body} {root : String} (h : B.Each (laid schema w.chart ∅) root) :
    B.Each (w.chart.fits .empty) root :=
  h.mono (fun _ _ _ hfalse => hfalse.elim) (fun _ _ he => he.1.resolve_right (by rintro ⟨⟩))
    fun _ _ hown => Or.inl (hown.resolve_right fun h => Outlook.not_mem_bound_empty _ h.2)

theorem Readable.of_laid {data : Dataset} (hs : schema.Accepted) (hids : schema.OwnIds)
    (hdata : Conforms schema data) (hw : w.Sound schema) (hle : Survey.start T ≤ w) {body : Body}
    (hbody : body.Each (Body.laid schema w.chart ∅) Reader.startingPosition.1.place.var) :
    Readable schema data w Reader.startingPosition.1.place T (T.withClass body) := by
  have hkind : w.chart.kind Reader.startingPosition.1.place.var = some T :=
    (hle.kind 0 Nat.zero_lt_one).trans (Survey.start_kind T)
  have hT := hw.declared hkind
  have hvar : isVariable Reader.startingPosition.1.place.var = true := isVariable_variableName 0
  refine {
    grounds := ⟨hs, hids, hdata, hw, ?_⟩
    kind := hkind
    fits := EntityType.each_withClass (fun c hc => ⟨hvar, hs.rdfClass hT hc⟩) hbody.fits
    supplied := EntityType.each_withClass (fun c hc n hn => (hn.2 rfl).1 c hc) ?_
    rdfClass := ?_ }
  · rintro v rfl
    exact hle.link 0 Nat.zero_lt_one
  · exact (hbody.supplied hdata).mono (fun _ _ _ h n hn => h n hn.1)
      (fun _ _ h hopt n hn => h hopt n hn.1) fun _ _ => id
  · intro μ hμ n c hn hc
    unfold EntityType.withClass at hμ
    rw [hc] at hμ
    obtain ⟨n', hn', hstatement⟩ := Pattern.leaf_of_mem_solutions hvar (hs.rdfClass hT hc) hμ
    rw [Assignment.extend_empty] at hn'
    obtain rfl : n' = n := Option.some.inj (hn'.symm.trans hn)
    exact hstatement

end Compile

section Read

variable {schema : Schema} {T : EntityType} {expand : ExpandTree} {names : Naming}
  {pattern : Pattern} {data : Dataset} {rows : List Row}

/-- Reading all entities of a type is correct: decoding the rows of the compiled pattern succeeds and
gives, for each instance of the type and for nothing else, the record that is to be read of it. -/
theorem ExpandTree.compile_decode (hs : schema.Accepted) (hids : schema.OwnIds)
    (hT : T ∈ schema.types)
    (hc : expand.compile schema Rule.builtin T Reader.startingPosition.1 Reader.startingPosition.2 =
      .ok (pattern, names))
    (hdata : Conforms schema data)
    (hrows : rows.Perm ((pattern.group.solutions data .empty).map Row.ofSolution)) :
    ∃ records nodes,
      decode schema names T expand Reader.startingPosition.1.place rows = .ok records ∧
      nodes.Nodup ∧ (∀ n, n ∈ nodes ↔ T.Instance data n) ∧
      ReadsEach schema data T expand nodes records := by
  obtain ⟨w, shape, rfl, hle, hw, -, hroot, hshape, htracked, body, hlaid, hbody⟩ :=
    compile_start hs hids hT hc
  obtain ⟨root, body'⟩ := pattern
  obtain rfl : root = _ := hroot
  obtain rfl : body' = _ := hbody
  exact (Readable.of_laid hs hids hdata hw hle hlaid).decode_all hshape htracked hrows

end Read

/-- Things with their parts, read from data with two things. -/
theorem ExpandTree.compile_decode_sample :
    Sample.schema.Accepted ∧ Sample.schema.OwnIds ∧ Conforms Sample.schema Sample.data ∧
      ∃ pattern names records nodes,
        (ExpandTree.cons "Parts" .nil .nil).compile Sample.schema Rule.builtin Sample.thing
          Reader.startingPosition.1 Reader.startingPosition.2 = .ok (pattern, names) ∧
        decode Sample.schema names Sample.thing (.cons "Parts" .nil .nil) Reader.startingPosition.1.place
          ((pattern.group.solutions Sample.data .empty).map Row.ofSolution) = .ok records ∧
        nodes.Nodup ∧ (∀ n, n ∈ nodes ↔ Sample.thing.Instance Sample.data n) ∧
        ReadsEach Sample.schema Sample.data Sample.thing (.cons "Parts" .nil .nil) nodes records := by
  obtain ⟨⟨pattern, names⟩, hc⟩ : ∃ result, (ExpandTree.cons "Parts" .nil .nil).compile Sample.schema
      Rule.builtin Sample.thing Reader.startingPosition.1 Reader.startingPosition.2 = .ok result :=
    ⟨_, rfl⟩
  obtain ⟨records, nodes, h⟩ := compile_decode Sample.accepted Sample.ownIds List.mem_cons_self hc
    Sample.conforms (.refl _)
  exact ⟨Sample.accepted, Sample.ownIds, Sample.conforms, pattern, names, records, nodes, hc, h⟩

end EntityGraph
