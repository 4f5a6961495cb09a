import EntityGraph.Proofs.Read.Requests
import EntityGraph.Proofs.Results.Grouped

/-!
# Decoding what was compiled

Placing the branches of a shape names everything that the shape shows, at every level, and what is
named later does not change it. So the rows of a compiled request are always decoded with the names
that decoding asks for, whatever the rows are: the only error is that they contradict each other. No
read ends with a fault of the compiler.
-/
namespace EntityGraph

namespace Shape

variable {schema : Schema} {T : EntityType} {expand : ExpandTree} {ps : List Property} {shape : Shape}
  {names names' : Naming} {q : Place}

theorem Named.mono (h : shape.Named names q)
    (hrelated : ∀ {q name r}, names.related? q name = some r → names'.related? q name = some r)
    (hvalue : ∀ {q name v}, names.value? q name = some v → names'.value? q name = some v) :
    shape.Named names' q := by
  have hsome : ∀ {q name}, (names.value? q name).isSome → (names'.value? q name).isSome := by
    intro q name h
    obtain ⟨v, hv⟩ := Option.isSome_iff_exists.mp h
    exact Option.isSome_iff_exists.mpr ⟨v, hvalue hv⟩
  induction shape generalizing q with
  | nil => trivial
  | value p rest ih => exact ⟨hsome h.1, ih h.2⟩
  | navigation p t below rest ihBelow ih =>
      obtain ⟨⟨r, hr, hid, hbelow⟩, hrest⟩ := h
      exact ⟨⟨r, hrelated hr, hsome hid, ihBelow hbelow⟩, ih hrest⟩

/-- The value of a property has a variable once its branch is placed: its own one, or that of the
identifier it copies. -/
theorem value_placed {b : PropertyBranch} (hc : b.isComplex = false) {position : Position}
    {placement : Placement} (h : (Branch.property b).placement position names = .ok placement) :
    (placement.names.value? position.place b.name).isSome := by
  cases hk : b.foreignKey with
  | none =>
      rw [Branch.placement_value hc hk] at h
      obtain rfl := Except.ok.inj h
      exact Option.isSome_iff_exists.mpr ⟨_, (Naming.keeps_value names position.place b.name).2⟩
  | some key =>
      rw [Branch.placement_foreignKey hc hk rfl rfl] at h
      obtain rfl := Except.ok.inj h
      simp only [Naming.link]
      split
      · next v hv => simp [hv]
      · next hnone => exact Option.isSome_iff_exists.mpr ⟨_, (Naming.keeps_addValue hnone).2⟩

theorem Shows.named (hs : schema.Accepted) (h : Shows schema expand ps shape) (hT : T ∈ schema.types)
    (hps : ∀ p ∈ ps, p ∈ T.properties) {forest : Forest} (hforest : shape.forest schema T = .ok forest)
    {position : Position} (hplaced : (forest.place Rule.builtin position names).failure = none) :
    shape.Named (forest.place Rule.builtin position names).names position.place := by
  induction h generalizing T forest position names with
  | nil => trivial
  | @value expand p ps rest he hrest ih =>
      obtain ⟨hp, hps⟩ := List.forall_mem_cons.mp hps
      obtain ⟨b, hb, hreads⟩ := hs.ofProperty hT hp
      obtain ⟨restForest, hrestForest, -⟩ := hrest.made hs hT hps
      obtain rfl : Forest.cons (.property b) .nil restForest = forest := by
        simpa [Shape.forest, hb, hrestForest, bind, Except.bind, pure, Except.pure] using hforest
      have hcomplex : b.isComplex = false := by rw [hreads.isComplex, he]; rfl
      rw [Forest.place_cons] at hplaced ⊢
      cases hplacement : (Branch.property b).placement position names with
      | error e => simp [hplacement] at hplaced
      | ok placement =>
          simp only [hplacement, Forest.place_nil] at hplaced ⊢
          refine ⟨?_, ih hT hps hrestForest hplaced⟩
          obtain ⟨v, hv⟩ := Option.isSome_iff_exists.mp (value_placed hcomplex hplacement)
          exact Option.isSome_iff_exists.mpr ⟨v, Forest.place_keeps.value (hreads.name ▸ hv)⟩
  | skip _ _ _ ih => exact ih hT (List.forall_mem_cons.mp hps).2 hforest hplaced
  | @navigation expand sub p t ps below rest he hc ht hbelow hrest ihBelow ih =>
      obtain ⟨hp, hps⟩ := List.forall_mem_cons.mp hps
      obtain ⟨t', ht', htarget⟩ := hs.targetType hT hp he
      obtain rfl := Except.ok.inj (ht.symm.trans htarget)
      obtain ⟨b, hb, hreads⟩ := hs.ofProperty hT hp
      obtain ⟨inner, hinner, -⟩ := hbelow.made hs ht' fun _ => id
      obtain ⟨restForest, hrestForest, -⟩ := hrest.made hs hT hps
      obtain rfl : Forest.cons (.property b) inner restForest = forest := by
        simpa [Shape.forest, hb, hinner, hrestForest, bind, Except.bind, pure, Except.pure] using hforest
      have hcomplex : b.isComplex = true := by rw [hreads.isComplex, he]; rfl
      have hrelated := (Naming.keeps_relatedPlace names position.place b.name).2
      nth_rewrite 2 [hreads.name] at hrelated
      rw [Forest.place_cons, Branch.placement_related hcomplex] at hplaced ⊢
      simp only at hplaced ⊢
      split at hplaced
      · next e _ => simp at hplaced
      · next hfailure =>
          simp only
          have hnamed := ihBelow ht' (fun _ => id) hinner hfailure
          obtain ⟨var, hvar⟩ := hbelow.named_id hs ht' hnamed
          have hlater := @Forest.place_keeps restForest position
          refine ⟨⟨_, hlater.related (Forest.place_keeps.related hrelated), ?_, ?_⟩,
            ih hT hps hrestForest hplaced⟩
          · exact Option.isSome_iff_exists.mpr ⟨var, hlater.value hvar⟩
          · exact hnamed.mono hlater.related hlater.value

end Shape

namespace Reader

variable {reader : Reader}

theorem decode_cases (hs : reader.schema.Accepted) (hrules : reader.rules = Rule.builtin)
    (hkey : Function.Injective reader.key) {request : ReadRequest} {query : CompiledQuery}
    (h : reader.compile request = .ok query) (rows : List Row) :
    (∃ records, decode reader.schema query.names query.entityType query.expand query.root rows =
      .ok records) ∨ ∃ e : DecodeError, e.IsInconsistent ∧
        decode reader.schema query.names query.entityType query.expand query.root rows = .error e := by
  obtain ⟨-, query', shape, forest, hok, hT, hroot, hshape, hforest, hplaced, hrelated, hvalue⟩ |
    ⟨-, e, herror, -⟩ := compile_cases hs hrules hkey request
  · obtain rfl := Except.ok.inj (h.symm.trans hok)
    have hshows := Shape.shows_ofExpand hs hT hshape
    have hnamed := (hshows.named hs hT (fun _ => id) hforest hplaced).mono hrelated hvalue
    obtain ⟨var, hvar⟩ := hshows.named_id hs hT hnamed
    rw [decode_eq_collect hshape, hroot]
    cases hcollect : shape.collect query.names query.entityType.name startingPosition.1.place rows with
    | ok coll => exact Or.inl ⟨_, rfl⟩
    | error e => exact Or.inr ⟨e, hnamed.isInconsistent_of_collect hvar hcollect, rfl⟩
  · simp [h] at herror

/-- What was compiled can be decoded, from any rows; and no read ends with a fault of the compiler. -/
theorem execute_blameless (hs : reader.schema.Accepted) (hrules : reader.rules = Rule.builtin)
    (hkey : Function.Injective reader.key) (request : ReadRequest) :
    (∀ query, reader.compile request = .ok query → ∀ rows,
      (∃ records, decode reader.schema query.names query.entityType query.expand query.root rows =
        .ok records) ∨
      ∃ type id property first second,
        decode reader.schema query.names query.entityType query.expand query.root rows =
          .error (.inconsistent type id property first second)) ∧
    ∀ store e, reader.execute store request = .error e → e.category ≠ .compilerBug := by
  constructor
  · intro query h rows
    obtain hok | ⟨e, ⟨type, id, property, first, second, rfl⟩, herror⟩ := decode_cases hs hrules hkey h rows
    · exact Or.inl hok
    · exact Or.inr ⟨type, id, property, first, second, herror⟩
  · intro store e herror
    unfold execute at herror
    cases hcompile : reader.compile request with
    | error e' =>
        simp only [hcompile] at herror
        obtain rfl := Except.error.inj herror
        obtain ⟨-, query, -, -, hok, -⟩ | ⟨-, e', herror', hcategory⟩ := compile_cases hs hrules hkey request
        · simp [hcompile] at hok
        · obtain rfl := Except.error.inj (hcompile.symm.trans herror')
          simp [hcategory]
    | ok query =>
        simp only [hcompile] at herror
        cases hstore : store query.sparql with
        | error e' =>
            simp only [hstore] at herror
            obtain rfl := Except.error.inj herror
            simp [ReadError.category]
        | ok rows =>
            simp only [hstore, answer] at herror
            obtain ⟨records, hok⟩ | ⟨e', ⟨type, id, property, first, second, rfl⟩, herror'⟩ :=
              decode_cases hs hrules hkey hcompile rows
            · simp only [hok] at herror
              split at herror <;> simp at herror
            · simp only [herror'] at herror
              obtain rfl := Except.error.inj herror
              simp [ReadError.category]

/-- Things read with their wholes under a condition on their parts, from rows that are no answer. -/
theorem execute_blameless_sample :
    Sample.schema.Accepted ∧ Function.Injective (id : Nat → ScopeKey) ∧ ∃ query,
      Reader.compile ⟨Sample.schema, Rule.builtin, id⟩ ⟨"Things", .cons "Whole" .nil .nil,
        some (.any ["Parts"] "x" (.eq (.property ["x", "Label"]) .null)), none⟩ = .ok query ∧
      ((∃ records, decode Sample.schema query.names query.entityType query.expand query.root
          [Row.ofPairs [("x0", "1")], []] = .ok records) ∨
        ∃ type id property first second, decode Sample.schema query.names query.entityType query.expand
          query.root [Row.ofPairs [("x0", "1")], []] = .error
            (.inconsistent type id property first second)) := by
  obtain ⟨query, hc⟩ : ∃ query, Reader.compile ⟨Sample.schema, Rule.builtin, id⟩ ⟨"Things",
      .cons "Whole" .nil .nil, some (.any ["Parts"] "x" (.eq (.property ["x", "Label"]) .null)), none⟩ =
        .ok query := ⟨_, rfl⟩
  exact ⟨Sample.accepted, Function.injective_id, query, hc,
    (execute_blameless Sample.accepted rfl Function.injective_id _).1 query hc _⟩

end Reader
end EntityGraph
