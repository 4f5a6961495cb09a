import EntityGraph.Proofs.Expand.Anchored
import EntityGraph.Proofs.Filter.Variables
import EntityGraph.Proofs.Filter.WellFormed
import EntityGraph.Proofs.Read.Identified

/-!
# Conditions on what is selected

An expanded read names all values of the entities on its paths, and the decoder reads the variables there. A
condition on such a value meets the same variable, at every depth and also for a foreign key, which is linked
where it is selected and followed to the identifier of the related entity where it is compared. So it makes up
no variable, neither for the condition nor for the branches that bind it.
-/
namespace EntityGraph

open Sparql

namespace Shape

variable {schema : Schema} {T t : EntityType} {expand sub : ExpandTree} {ps : List Property} {shape : Shape}
  {names : Naming} {source : Nat → Option (Place × String)} {q : Place} {p : Property}

/-- The variable of a value, and what it is for a foreign key. -/
def Selects (names : Naming) (q : Place) (p : Property) (v : String) : Prop :=
  names.value? q p.name = some v ∧ ∀ navigation, p.foreignKeyOf = some navigation →
    ∃ r, names.related? q navigation = some r ∧ names.value? r idName = some v

theorem Shows.selects (h : Shows schema expand ps shape) (hanchored : shape.Anchored names source q)
    (hp : p ∈ ps) (he : p.isElementary = true) : ∃ v, Selects names q p v := by
  induction h with
  | nil => simp at hp
  | value _ _ ih =>
      obtain ⟨⟨v, hv, hkey⟩, hrest⟩ := hanchored
      obtain rfl | hp := List.mem_cons.mp hp
      · refine ⟨v, hv, fun navigation hnavigation => ?_⟩
        obtain ⟨hown, -⟩ | ⟨navigation', r, hkey, hr, hid⟩ := hkey
        · simp [hnavigation] at hown
        · obtain rfl := Option.some.inj (hnavigation.symm.trans hkey)
          exact ⟨r, hr, hid.1⟩
      · exact ih hrest hp
  | skip he' _ _ ih =>
      obtain rfl | hp := List.mem_cons.mp hp
      · simp [he] at he'
      · exact ih hanchored hp
  | navigation he' _ _ _ _ _ ih =>
      obtain rfl | hp := List.mem_cons.mp hp
      · simp [he] at he'
      · exact ih hanchored.2 hp

theorem Shows.expanded (h : Shows schema expand ps shape) (hanchored : shape.Anchored names source q)
    (hp : p ∈ ps) (he : p.isElementary = false) (hc : expand.child? p.name = some sub)
    (ht : schema.targetType p = .ok t) : ∃ below r, Shows schema sub t.properties below ∧
      names.related? q p.name = some r ∧ below.Anchored names source r := by
  induction h with
  | nil => simp at hp
  | value he' _ ih =>
      obtain rfl | hp := List.mem_cons.mp hp
      · simp [he] at he'
      · exact ih hanchored.2 hp hc
  | skip _ hnone _ ih =>
      obtain rfl | hp := List.mem_cons.mp hp
      · simp [hc] at hnone
      · exact ih hanchored hp hc
  | navigation _ hc' ht' hbelow _ _ ih =>
      obtain ⟨⟨r, hr, -, hinner⟩, hrest⟩ := hanchored
      obtain rfl | hp := List.mem_cons.mp hp
      · obtain rfl := Option.some.inj (hc.symm.trans hc')
        obtain rfl := Except.ok.inj (ht.symm.trans ht')
        exact ⟨_, r, hbelow, hr, hinner⟩
      · exact ih hrest hp hc

/-- A path over expanded navigation properties leads to the entity whose values are shown, and the value at
its end has the variable of the path. -/
theorem Shows.valueVar? (hs : schema.Accepted) {init : List String} (hpath : expand.Expands schema T init t)
    (hT : T ∈ schema.types) (h : Shows schema expand T.properties shape)
    (hanchored : shape.Anchored names source q) (hp : p ∈ t.properties) (he : p.isElementary = true) :
    ∃ r v, names.follow q init = some r ∧ Selects names r p v ∧
      schema.valueVar? names T q (init ++ [p.name]) = some v := by
  induction hpath generalizing shape q with
  | here =>
      obtain ⟨v, hv⟩ := h.selects hanchored hp he
      refine ⟨q, v, rfl, hv, ?_⟩
      have hfound := hs.property? hT hp
      cases hkey : p.foreignKeyOf with
      | none => exact (Schema.valueVar?_value hfound hkey).trans hv.1
      | some navigation =>
          obtain ⟨r, hr, hid⟩ := hv.2 navigation hkey
          exact (Schema.valueVar?_foreignKey hfound hkey).trans (Option.bind_eq_some_iff.mpr ⟨r, hr, hid⟩)
  | @navigation T t _ _ _ n path hn hcomplex hc ht _ ih =>
      obtain ⟨t', ht', htarget⟩ := hs.targetType hT hn hcomplex
      obtain rfl := Except.ok.inj (ht.symm.trans htarget)
      obtain ⟨below, r, hbelow, hr, hinner⟩ := h.expanded hanchored hn hcomplex hc ht
      obtain ⟨r', v, hfollow, hv, hfound⟩ := ih ht' hbelow hinner hp
      refine ⟨r', v, by simp [Naming.follow, hr, hfollow], hv, ?_⟩
      rw [List.cons_append, Schema.valueVar?_cons (by simp)]
      simpa [hs.property? hT hn, ht, hr, Except.toOption] using hfound

end Shape

theorem ExpandTree.Expands.reach? {schema : Schema} (hs : schema.Accepted) {T t : EntityType}
    {expand : ExpandTree} {init : List String} (hpath : expand.Expands schema T init t)
    (hT : T ∈ schema.types)
    {last : String} {p : Property} (hreach : schema.reach? T (init ++ [last]) = some p) :
    t.property? last = some p := by
  induction hpath with
  | here => exact hreach
  | @navigation T t _ _ _ n path hn hcomplex _ ht _ ih =>
      obtain ⟨t', ht', htarget⟩ := hs.targetType hT hn hcomplex
      obtain rfl := Except.ok.inj (ht.symm.trans htarget)
      refine ih ht' ?_
      obtain ⟨next, rest, hrest⟩ := List.exists_cons_of_ne_nil (List.concat_ne_nil last path)
      rw [List.cons_append, hrest, Schema.reach?, hs.property? hT hn] at hreach
      simp only [ht] at hreach
      rw [hrest]
      split at hreach
      · simp at hreach
      · exact hreach

namespace Filter

variable {context : FilterContext} {scope : FilterScope} {position : Position} {session : Session}
  {T : EntityType} {path : List String} {p : Property}

theorem ends_start_plain (hs : context.schema.Accepted) (hT : T ∈ context.schema.types)
    (htype : scope.entityType = T.name) (hplain : ∀ first ∈ path.head?, scope.lambdas.lookup first = none) :
    Ends (start context scope position path) session (fun result after =>
      after = session ∧ (result.1.owner, result.2) = origin (fun _ => none) T path ∧
        result.1.owner ∈ context.schema.types ∧ result.1.Leads fun _ => none) fun _ => False := by
  have hhere : Cursor.Leads (fun _ => none) { branches := [], owner := T, place := position.place } :=
    ⟨fun hlast => hlast.mono fun _ => Or.inl, fun _ hlast => hlast⟩
  unfold start
  rw [ends_bind, htype, hs.entityType hT, ends_liftSchema_ok]
  cases path with
  | nil => exact ⟨rfl, rfl, hT, hhere⟩
  | cons first rest =>
      simp only [hplain first rfl]
      exact ⟨rfl, rfl, hT, hhere⟩

theorem compileProperty_known (hs : context.schema.Accepted) (hids : context.schema.OwnIds)
    (hT : T ∈ context.schema.types) (htype : scope.entityType = T.name)
    (hplain : ∀ first ∈ path.head?, scope.lambdas.lookup first = none)
    (hreach : context.schema.reach? T path = some p) (he : p.isElementary = true) {v : String}
    (hv : context.schema.valueVar? session.names T position.place path = some v) :
    ∃ compiled, (compileProperty context scope position path).run.run session = (.ok compiled, session) ∧
      compiled.clause = .var v ∧ compiled.forest.Known session.names position := by
  have hformed : (property path).WellFormed context.schema T fun _ => none := by
    refine ⟨p, ?_, he⟩
    cases path with
    | nil => simp [Schema.reach?] at hreach
    | cons first rest => exact hreach
  have hvar : scope.valueVar? context.schema position session.names path = some v := by
    cases path with
    | nil => simp [Schema.valueVar?] at hv
    | cons first rest =>
        simp [FilterScope.valueVar?, hplain first rfl, htype, hs.entityType hT, Except.toOption, hv]
  have hends := (ends_value_of hs (ends_start_plain hs hT htype hplain)).and
    ((finds_compileProperty context scope position path session).and (reads_compileProperty hs hids))
  unfold Ends at hends
  split at hends
  · next compiled after hrun =>
      obtain ⟨-, ⟨-, ⟨v', hclause, hfound⟩, hsame⟩, hreads⟩ := hends
      obtain rfl := hsame (by rw [hvar]; rfl)
      obtain rfl := Option.some.inj (hvar.symm.trans hfound)
      exact ⟨compiled, hrun, hclause, hreads.known⟩
  · exact absurd hformed hends.1.2

end Filter

namespace ExpandTree

variable {context : FilterContext} {scope : FilterScope} {position : Position} {session : Session}
  {T t : EntityType} {expand : ExpandTree} {pattern : Pattern} {names : Naming} {init : List String}
  {last : String} {p : Property}

/-- A condition on a value that an expanded read selects is a condition on the variable that the decoder reads
there, which is that of the identifier of the related entity if the value is a foreign key. Neither compiling
the condition nor placing its branches makes up a name. -/
theorem compile_selected (hs : context.schema.Accepted) (hids : context.schema.OwnIds)
    (hT : T ∈ context.schema.types)
    (hc : expand.compile context.schema Rule.builtin T Reader.startingPosition.1 Reader.startingPosition.2 =
      .ok (pattern, names))
    (hpath : expand.Expands context.schema T init t)
    (hreach : context.schema.reach? T (init ++ [last]) = some p) (he : p.isElementary = true)
    (htype : scope.entityType = T.name)
    (hplain : ∀ first ∈ (init ++ [last]).head?, scope.lambdas.lookup first = none)
    (hplace : position.place = Reader.startingPosition.1.place) (hnames : names.Grows session.names) :
    ∃ q v compiled body, names.follow Reader.startingPosition.1.place init = some q ∧
      names.value? q last = some v ∧
      (∀ navigation, p.foreignKeyOf = some navigation →
        ∃ r, names.related? q navigation = some r ∧ names.value? r idName = some v) ∧
      ((Filter.property (init ++ [last])).compile context scope position).run.run session =
        (.ok compiled, session) ∧
      compiled.clause = .var v ∧
      compiled.forest.placeAll Rule.builtin position session.names = .ok (body, session.names) := by
  obtain ⟨shape, source, hshape, -, -, -, hanchored⟩ := compile_anchored hs hids hT hc
  obtain ⟨hp, rfl⟩ := EntityType.mem_of_property? (hpath.reach? hs hT hreach)
  obtain ⟨q, v, hfollow, ⟨hv, hkey⟩, hfound⟩ :=
    Shape.Shows.valueVar? hs hpath hT (Shape.shows_ofExpand hs hT hshape) hanchored hp he
  obtain ⟨compiled, hrun, hclause, hknown⟩ :=
    Filter.compileProperty_known hs hids hT htype hplain hreach he (hplace ▸ hnames.valueVar? hfound)
  obtain ⟨hfailure, hsame⟩ := hknown.place
  refine ⟨q, v, compiled, (compiled.forest.place Rule.builtin position session.names).body, hfollow,
    hv, hkey, hrun, hclause, ?_⟩
  simp only [Forest.placeAll, hfailure, hsame]

/-- Things whose whole is part of a thing with a given number, where wholes are selected. -/
theorem compile_selected_sample : Sample.schema.Accepted ∧ Sample.schema.OwnIds ∧
    ∃ pattern names q r v compiled, ExpandTree.compile Sample.schema Rule.builtin Sample.thing
        (.cons "Whole" .nil .nil) Reader.startingPosition.1 Reader.startingPosition.2 = .ok (pattern, names) ∧
      names.follow Reader.startingPosition.1.place ["Whole"] = some q ∧
      names.value? q "WholeId" = some v ∧ names.related? q "Whole" = some r ∧ names.value? r idName = some v ∧
      ((Filter.property ["Whole", "WholeId"]).compile { schema := Sample.schema, rules := Rule.builtin }
        ⟨"Thing", []⟩ Reader.startingPosition.1).run.run { names } = (.ok compiled, { names }) ∧
      compiled.clause = .var v := by
  have hT : Sample.thing ∈ Sample.schema.types := List.mem_singleton_self _
  have hpath : Expands Sample.schema Sample.thing (.cons "Whole" .nil .nil) ["Whole"] Sample.thing :=
    .navigation (p := Sample.thing.properties.get ⟨2, by decide⟩) (by decide) rfl rfl rfl .here
  obtain ⟨pattern, names, hc⟩ : ∃ pattern names, ExpandTree.compile Sample.schema Rule.builtin Sample.thing
      (.cons "Whole" .nil .nil) Reader.startingPosition.1 Reader.startingPosition.2 = .ok (pattern, names) :=
    exists_compile Sample.accepted hT rfl _ _
  obtain ⟨q, v, compiled, -, hfollow, hv, hkey, hrun, hclause, -⟩ :=
    @compile_selected { schema := Sample.schema, rules := Rule.builtin }
      ⟨"Thing", []⟩ Reader.startingPosition.1
      { names } _ _ _ pattern names ["Whole"] "WholeId"
      (Sample.thing.properties.get ⟨3, by decide⟩) Sample.accepted
      Sample.ownIds hT hc hpath rfl rfl rfl (fun _ _ => rfl) rfl (.refl names)
  obtain ⟨r, hr, hid⟩ := hkey "Whole" rfl
  exact ⟨Sample.accepted, Sample.ownIds, pattern, names, q, r, v, compiled, hc, hfollow, hv, hr, hid,
    hrun, hclause⟩

end ExpandTree
end EntityGraph
