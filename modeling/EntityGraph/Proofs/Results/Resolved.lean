import EntityGraph.Results.Decode

/-!
# Types looked up on the way

The type that an expanded name leads to is looked up row by row. If all of them are there, then
recording a row is recording it in the shape of the read. If one of them is not there, then no row can
be recorded at an entity, so that decoding succeeds on rows that bind no identifier and on no others.
-/
namespace EntityGraph

namespace Shape

variable {names : Naming} {row : Row} {ps : List Property} {type id : String} {q : Place} {entity : Entity}
  {children : List (String × Except SchemaError (EntityType × Shape))} {e : SchemaError}

theorem fill_value_bind (p : Property) (rest : Shape) :
    (fill names row (value p nil) type q id entity >>= fill names row rest type q id) =
      fill names row (value p rest) type q id entity := by
  simp only [fill]
  cases names.value? q p.name with
  | none => rfl
  | some var =>
      cases hbound : row.bound? var with
      | none => simp only [hbound]; rfl
      | some text => cases hc : entity.conflict? p.name text <;> (simp only [hbound, hc]; rfl)

theorem fill_navigation_bind (p : Property) (target : EntityType) (below rest : Shape) :
    (fill names row (navigation p target below nil) type q id entity >>= fill names row rest type q id) =
      fill names row (navigation p target below rest) type q id entity := by
  simp only [fill]
  cases names.related? q p.name with
  | none => rfl
  | some related =>
      simp only
      cases route names row target.name related
        (fun id entity => fill names row below target.name related id entity) (entity.items p.name) with
      | error e => rfl
      | ok items =>
          simp only [bind, Except.bind]
          rcases p.isSingle with _ | _
          · rfl
          · rcases items.ids with _ | ⟨first, _ | ⟨second, ids⟩⟩ <;> rfl

theorem ofProperties_cons {p : Property} :
    ofProperties children (p :: ps) =
      if p.isElementary then (ofProperties children ps).map (value p)
      else
        match children.lookup p.name with
        | none => ofProperties children ps
        | some (.error e) => .error e
        | some (.ok (target, below)) => (ofProperties children ps).map (navigation p target below) := by
  rw [ofProperties]
  split
  · cases ofProperties children ps <;> rfl
  · cases children.lookup p.name with
    | none => rfl
    | some child =>
        cases child with
        | error e => rfl
        | ok child => cases ofProperties children ps <;> rfl

theorem fillEach_eq_fill {shape : Shape} (h : ofProperties children ps = .ok shape) :
    fillEach names row children ps type q id entity = shape.fill names row type q id entity := by
  induction ps generalizing shape entity with
  | nil =>
      obtain rfl : Shape.nil = shape := Except.ok.inj h
      rfl
  | cons p ps ih =>
      rw [ofProperties_cons] at h
      unfold fillEach
      by_cases he : p.isElementary
      · rw [if_pos he] at h ⊢
        cases hrest : ofProperties children ps with
        | error e => simp [hrest, Except.map] at h
        | ok rest =>
            obtain rfl : value p rest = shape := by simpa [hrest, Except.map] using h
            rw [← fill_value_bind p rest]
            apply congrArg (_ >>= ·)
            funext entity
            exact ih hrest
      · rw [if_neg he] at h ⊢
        cases hc : children.lookup p.name with
        | none =>
            rw [hc] at h
            exact ih h
        | some child =>
            rw [hc] at h
            cases child with
            | error e => simp at h
            | ok child =>
                obtain ⟨target, below⟩ := child
                cases hrest : ofProperties children ps with
                | error e => simp [hrest, Except.map] at h
                | ok rest =>
                    obtain rfl : navigation p target below rest = shape := by
                      simpa [hrest, Except.map] using h
                    cases hr : names.related? q p.name with
                    | none => simp only [fill, hr]
                    | some related =>
                        rw [← fill_navigation_bind p target below rest]
                        apply congrArg (_ >>= ·)
                        funext entity
                        exact ih hrest

theorem fillEach_fails (h : ofProperties children ps = .error e) :
    ∃ e', fillEach names row children ps type q id entity = .error e' := by
  induction ps generalizing entity with
  | nil => simp [ofProperties] at h
  | cons p ps ih =>
      rw [ofProperties_cons] at h
      unfold fillEach
      by_cases he : p.isElementary
      · rw [if_pos he] at h ⊢
        cases hrest : ofProperties children ps with
        | ok rest => simp [hrest, Except.map] at h
        | error e' =>
            obtain rfl : e' = e := by simpa [hrest, Except.map] using h
            cases fill names row (value p nil) type q id entity with
            | error e' => exact ⟨e', rfl⟩
            | ok entity' => exact ih hrest
      · rw [if_neg he] at h ⊢
        cases hc : children.lookup p.name with
        | none =>
            rw [hc] at h
            exact ih h
        | some child =>
            rw [hc] at h
            cases names.related? q p.name with
            | none => exact ⟨_, rfl⟩
            | some related =>
                cases child with
                | error e' => exact ⟨_, rfl⟩
                | ok child =>
                    cases hrest : ofProperties children ps with
                    | ok rest => simp [hrest, Except.map] at h
                    | error e' =>
                        obtain rfl : e' = e := by simpa [hrest, Except.map] using h
                        simp only
                        cases fill names row (navigation p child.1 child.2 nil) type q id entity with
                        | error e' => exact ⟨e', rfl⟩
                        | ok entity' => exact ih hrest

theorem collectEach_eq_collect {schema : Schema} {owner : EntityType} {expand : ExpandTree} {shape : Shape}
    (h : ofExpand schema owner expand = .ok shape) (names : Naming) (root : Place) (rows : List Row) :
    collectEach schema names owner expand root rows = shape.collect names owner.name root rows := by
  unfold collectEach collect
  congr
  funext coll row
  congr
  funext id entity
  exact fillEach_eq_fill h

end Shape

theorem decode_eq_collect {schema : Schema} {T : EntityType} {expand : ExpandTree} {shape : Shape}
    (h : Shape.ofExpand schema T expand = .ok shape)
    (names : Naming) (root : Place) (rows : List Row) :
    decode schema names T expand root rows = (shape.collect names T.name root rows).map shape.records := by
  unfold decode decodeCollection
  rw [Shape.collectEach_eq_collect h, h]
  cases shape.collect names T.name root rows <;> rfl

end EntityGraph
