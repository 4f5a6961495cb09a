import EntityGraph.Proofs.Read.Condition
import EntityGraph.Proofs.Read.Identified

/-!
# What a condition leaves untouched

The names that the expanded read needs are made up before the condition is compiled, and are never
changed. So requests that differ only in their conditions have the same pattern up to the conjunct of the
condition, and their rows are decoded through the same variables: decoding does not tell them apart.
-/
namespace EntityGraph

namespace Shape

variable {names names' base : Naming} {shape : Shape} {q : Place}

/-- Both namings give the same variables and entities to what the shape shows. -/
def Agrees (names names' : Naming) : Shape → Place → Prop
  | nil, _ => True
  | value p rest, q =>
    (∃ v, names.value? q p.name = some v ∧ names'.value? q p.name = some v) ∧ rest.Agrees names names' q
  | navigation p _ below rest, q =>
    (∃ r, names.related? q p.name = some r ∧ names'.related? q p.name = some r ∧
      (∃ v, names.value? r idName = some v ∧ names'.value? r idName = some v) ∧
      below.Agrees names names' r) ∧ rest.Agrees names names' q

theorem Named.agrees (h : shape.Named base q) (hg : base.Grows names) (hg' : base.Grows names') :
    shape.Agrees names names' q := by
  have hboth : ∀ {q name}, (base.value? q name).isSome →
      ∃ v, names.value? q name = some v ∧ names'.value? q name = some v := by
    intro q name hsome
    obtain ⟨v, hv⟩ := Option.isSome_iff_exists.mp hsome
    exact ⟨v, hg.value hv, hg'.value hv⟩
  induction shape generalizing q with
  | nil => trivial
  | value p rest ih => exact ⟨hboth h.1, ih h.2⟩
  | navigation p t below rest ihBelow ih =>
      obtain ⟨⟨r, hr, hid, hbelow⟩, hrest⟩ := h
      exact ⟨⟨r, hg.related hr, hg'.related hr, hboth hid, ihBelow hbelow⟩, ih hrest⟩

theorem Agrees.fill (h : shape.Agrees names names' q) (row : Row) (type id : String) (entity : Entity) :
    shape.fill names row type q id entity = shape.fill names' row type q id entity := by
  induction shape generalizing q type id entity with
  | nil => rfl
  | value p rest ih =>
      obtain ⟨⟨v, hv, hv'⟩, hrest⟩ := h
      unfold Shape.fill
      rw [hv, hv']
      simp only [ih hrest]
  | navigation p t below rest ihBelow ih =>
      obtain ⟨⟨r, hr, hr', ⟨v, hv, hv'⟩, hbelow⟩, hrest⟩ := h
      unfold Shape.fill route
      rw [hr, hr']
      simp only [hv, hv', ih hrest, ihBelow hbelow]

theorem Agrees.collect (h : shape.Agrees names names' q) {v : String} (hid : names.value? q idName = some v)
    (hid' : names'.value? q idName = some v) (type : String) (rows : List Row) :
    shape.collect names type q rows = shape.collect names' type q rows := by
  unfold Shape.collect route
  simp only [hid, hid', h.fill]

end Shape

/-- The pattern has the parts of `selection`; a condition is one more conjunct at the root. -/
def CompiledQuery.Selects (query : CompiledQuery) (selection : Body) : Option Filter → Prop
  | none => query.pattern = ⟨query.root.var, selection⟩
  | some _ => ∃ bound, query.pattern =
      ⟨query.root.var, selection.append (.conjunct query.root.var bound .nil)⟩

theorem CompiledQuery.Selects.parts {query : CompiledQuery} {selection : Body} {filter : Option Filter}
    (h : query.Selects selection filter) :
    query.pattern.root = query.root.var ∧ query.pattern.body.leaves = selection.leaves ∧
      query.pattern.body.edges = selection.edges ∧
      query.pattern.body.alternatives = selection.alternatives := by
  cases filter with
  | none =>
      unfold Selects at h
      simp [h]
  | some f =>
      obtain ⟨bound, h⟩ := h
      simp [h, Body.leaves_append, Body.edges_append, Body.alternatives_append, Body.leaves, Body.edges,
        Body.alternatives]

namespace Reader

variable {reader : Reader}

section Compiled

variable (hs : reader.schema.Accepted) (hrules : reader.rules = Rule.builtin)
  (hkey : Function.Injective reader.key)

include hs hrules hkey

theorem compile_selects {request : ReadRequest} {query : CompiledQuery}
    (h : reader.compile request = .ok query) :
    ∃ selection before, request.expand.compile reader.schema Rule.builtin query.entityType startingPosition.1
        startingPosition.2 = .ok (⟨query.root.var, selection⟩, before) ∧
      before.Grows query.names ∧ query.Selects selection request.effectiveFilter := by
  obtain ⟨-, hroot, hexpand, hpattern⟩ := compile_ok h
  have hgrows : ∀ {base before}, request.expand.compile reader.schema Rule.builtin query.entityType
      startingPosition.1 startingPosition.2 = .ok (base, before) →
      base.root = query.root.var ∧ before.Grows query.names := by
    intro base before hcompile
    obtain ⟨shape, forest, hshape, hforest, -, rfl, rfl⟩ := ExpandTree.compile_ok hcompile
    obtain ⟨-, query', shape', forest', hok, -, -, hshape', hforest', -, hrelated, hvalue⟩ |
      ⟨-, e, herror, -⟩ := compile_cases hs hrules hkey request
    · obtain rfl := Except.ok.inj (h.symm.trans hok)
      rw [hexpand] at hshape'
      obtain rfl := Except.ok.inj (hshape.symm.trans hshape')
      obtain rfl := Except.ok.inj (hforest.symm.trans hforest')
      exact ⟨by rw [hroot], hrelated, hvalue⟩
    · simp [h] at herror
  cases hfilter : request.effectiveFilter with
  | none =>
      obtain ⟨-, hcompile⟩ := compilePattern_none hfilter hpattern
      rw [hrules] at hcompile
      obtain ⟨hbase, hnames⟩ := hgrows hcompile
      refine ⟨query.pattern.body, query.names, ?_, hnames, ?_⟩
      · rw [hcompile, ← hbase]
      · unfold CompiledQuery.Selects
        rw [← hbase]
  | some f =>
      obtain ⟨base, before, clause, bound, hcompile, -, -, hquery⟩ := compilePattern_some hfilter hpattern
      rw [hrules] at hcompile
      obtain ⟨hbase, hnames⟩ := hgrows hcompile
      refine ⟨base.body, before, ?_, hnames, bound, ?_⟩
      · rw [hcompile, ← hbase]
      · rw [hquery, hbase, hroot]

/-- Requests that differ only in their conditions: apart from the conjunct of a condition the patterns are
the same, and everything that is shown of an entity has the same variable, so that any rows are decoded
alike. -/
theorem compile_unaffected {request : ReadRequest} {filter byId : Option Filter}
    {query query' : CompiledQuery}
    (h : reader.compile request = .ok query) (h' :
      reader.compile { request with filter, byId } = .ok query') :
    (query'.root, query'.entityType, query'.expand) = (query.root, query.entityType, query.expand) ∧
    query'.pattern.root = query.pattern.root ∧ query'.pattern.body.leaves = query.pattern.body.leaves ∧
    query'.pattern.body.edges = query.pattern.body.edges ∧
    query'.pattern.body.alternatives = query.pattern.body.alternatives ∧
    (∃ selection : Body, selection.conjuncts = [] ∧ query.Selects selection request.effectiveFilter ∧
      query'.Selects selection ({ request with filter, byId } : ReadRequest).effectiveFilter) ∧
    (∃ shape, Shape.ofExpand reader.schema query.entityType query.expand = .ok shape ∧
      shape.Agrees query.names query'.names query.root) ∧
    ∀ rows, decode reader.schema query'.names query'.entityType query'.expand query'.root rows =
      decode reader.schema query.names query.entityType query.expand query.root rows := by
  obtain ⟨hset, hroot, hexpand, -⟩ := compile_ok h
  obtain ⟨hset', hroot', hexpand', -⟩ := compile_ok h'
  have htype : query'.entityType = query.entityType := Except.ok.inj (hset'.symm.trans hset)
  have hsame : query'.root = query.root := hroot'.trans hroot.symm
  have hT := hs.entitySet hset
  obtain ⟨selection, before, hcompile, hgrows, hselects⟩ := compile_selects hs hrules hkey h
  obtain ⟨selection', before', hcompile', hgrows', hselects'⟩ := compile_selects hs hrules hkey h'
  -- both start with the pattern and the names of the same expanded read
  rw [htype, hsame, hcompile] at hcompile'
  obtain ⟨rfl, rfl⟩ : selection = selection' ∧ before = before' := by simpa using hcompile'
  have hconjuncts : selection.conjuncts = [] :=
    (ExpandTree.compile_walks hs hT hcompile).conjuncts_eq_nil fun _ _ => id
  obtain ⟨shape, forest, hshape, hforest, hplaced, rfl, -⟩ := ExpandTree.compile_ok hcompile
  have hshows := Shape.shows_ofExpand hs hT hshape
  have hnamed := hshows.named hs hT (fun _ => id) hforest hplaced
  rw [← hroot] at hnamed
  obtain ⟨v, hv⟩ := hshows.named_id hs hT hnamed
  have hagrees := hnamed.agrees hgrows hgrows'
  obtain ⟨hpattern, hleaves, hedges, halternatives⟩ := hselects.parts
  obtain ⟨hpattern', hleaves', hedges', halternatives'⟩ := hselects'.parts
  refine
    ⟨by rw [hsame, htype, hexpand, hexpand'], by rw [hpattern, hpattern', hsame], hleaves'.trans hleaves.symm,
    hedges'.trans hedges.symm, halternatives'.trans halternatives.symm,
    ⟨selection, hconjuncts, hselects, hselects'⟩, ⟨shape, hexpand ▸ hshape, hagrees⟩, fun rows => ?_⟩
  rw [htype, hsame, hexpand', hexpand, decode_eq_collect hshape, decode_eq_collect hshape,
    hagrees.collect (hgrows.value hv) (hgrows'.value hv)]

end Compiled

/-- Things with their parts, all of them, and the one with an identifier if it has a part without a label. -/
theorem compile_unaffected_sample :
    Sample.schema.Accepted ∧ Function.Injective (id : Nat → ScopeKey) ∧ ∃ query query',
      Reader.compile { schema := Sample.schema } ⟨"Things", .cons "Parts" .nil .nil, none, none⟩ = .ok query ∧
      Reader.compile { schema := Sample.schema } ⟨"Things", .cons "Parts" .nil .nil,
        some (.any ["Parts"] "x" (.eq (.property ["x", "Label"]) .null)), some (.string "1")⟩ = .ok query' ∧
      query'.pattern.body.edges = query.pattern.body.edges ∧
      (∃ shape, Shape.ofExpand Sample.schema query.entityType query.expand = .ok shape ∧
        shape.Agrees query.names query'.names query.root) ∧
      ∀ rows, decode Sample.schema query'.names query'.entityType query'.expand query'.root rows =
        decode Sample.schema query.names query.entityType query.expand query.root rows := by
  obtain ⟨query, h⟩ : ∃ query, Reader.compile { schema := Sample.schema }
      ⟨"Things", .cons "Parts" .nil .nil, none, none⟩ = .ok query := ⟨_, rfl⟩
  obtain ⟨query', h'⟩ : ∃ query', Reader.compile { schema := Sample.schema }
    ⟨"Things", .cons "Parts" .nil .nil,
      some (.any ["Parts"] "x" (.eq (.property ["x", "Label"]) .null)), some (.string "1")⟩ = .ok query' :=
    ⟨_, rfl⟩
  obtain ⟨-, -, -, hedges, -, -, hagrees, hdecode⟩ := compile_unaffected
    Sample.accepted rfl Function.injective_id h h'
  exact ⟨Sample.accepted, Function.injective_id, query, query', h, h', hedges, hagrees, hdecode⟩

end Reader
end EntityGraph
