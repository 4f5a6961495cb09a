import EntityGraph.Proofs.Filter.Strings
import EntityGraph.Proofs.Placement.Worded

/-!
# The vocabulary of a condition

The condition that a filter is compiled to, the patterns of its `any` and the branches that bind its
variables are made of the vocabulary of the schema, of numerals and of the strings of the filter, each of
them once and in the same order.
-/
namespace EntityGraph

namespace Sparql.Clause

/-- The numerals and variables belong to the vocabulary, and so do the words of all `EXISTS`. -/
def Worded (w : Vocabulary) : Clause → Prop
  | string _ => True
  | number text => w.numeral text
  | boolean _ => True
  | var name => w.var name
  | and left right => left.Worded w ∧ right.Worded w
  | or left right => left.Worded w ∧ right.Worded w
  | equal left right => left.Worded w ∧ right.Worded w
  | not inner => inner.Worded w
  | bound name => w.var name
  | existing group condition => group.Worded w ∧ condition.Worded w

theorem worded_nullSafeEqual {w : Vocabulary} {left right : Clause} (hl : left.Worded w) (hr : right.Worded w)
    (mayBeUnbound : Bool) : (nullSafeEqual left right mayBeUnbound).Worded w := by
  unfold nullSafeEqual
  split
  · exact ⟨⟨hl, hr⟩, hl, hr⟩
  · exact ⟨hl, hr⟩

end Sparql.Clause

namespace Filter

variable {context : FilterContext} {scope : FilterScope} {position : Position} {session : Session}
  {path : List String} {w : Vocabulary}

/-- The words of the branches of a cursor belong to the vocabulary, and the properties where it stands are of
the schema. -/
structure Cursor.Worded (w : Vocabulary) (context : FilterContext) (cursor : Cursor) : Prop where
  branches : ∀ branch ∈ cursor.branches, branch.Worded w
  owner : ∀ p ∈ cursor.owner.properties, cursor.owner ∈ context.schema.types

def Speaks (w : Vocabulary) (session : Session) (x : FilterM CompiledFilter) (strings : List String) : Prop :=
  Ends x session (fun compiled after => after.names.Worded w ∧ compiled.forest.Every (Branch.Worded w) ∧
    compiled.clause.Worded w ∧ compiled.clause.strings = strings) fun _ => True

theorem mem_types_of_entityType {schema : Schema} {name : String} {t : EntityType}
    (h : schema.entityType name = .ok t) : ∀ p ∈ t.properties, t ∈ schema.types := by
  intro p hp
  cases hprim : isPrimitive name with
  | true =>
      simp only [Schema.entityType, hprim, if_true] at h
      obtain rfl := Except.ok.inj h
      simp at hp
  | false => exact (Schema.entityType_ok h hprim).1

theorem worded_start (w : Vocabulary) (context : FilterContext) (scope : FilterScope) (position : Position)
    (path : List String) (session : Session) :
    Ends (start context scope position path) session
      (fun result after => after = session ∧ result.1.Worded w context) fun _ => True := by
  unfold start
  rw [ends_bind]
  refine ends_lift fun owner howner => ?_
  have hhere : Cursor.Worded w context { branches := [], owner, place := position.place } :=
    ⟨by simp, mem_types_of_entityType howner⟩
  cases path with
  | nil => exact ⟨rfl, hhere⟩
  | cons first rest =>
      simp only
      split
      · exact ⟨rfl, hhere⟩
      · simp only [ends_bind, ends_get]
        split
        · trivial
        · rw [ends_bind]
          refine ends_lift fun owner howner => ⟨rfl, ?_, mem_types_of_entityType howner⟩
          simp [Branch.Worded]

section Steps

variable (hs : context.schema.Accepted) (hw : w.Covers context.schema)
include hs hw

theorem worded_branch {T : EntityType} {p : Property} {name : String} {branch : Branch}
    (hT : ∀ p ∈ T.properties, T ∈ context.schema.types) (hp : T.property name = .ok p)
    (h : Branch.ofProperty context.schema T p = .ok branch) : branch.Worded w := by
  obtain ⟨hmem, -⟩ := EntityType.mem_of_property? (EntityType.property_eq_ok.mp hp)
  obtain ⟨b, rfl, hreads⟩ := hs.reads_of_ofProperty (hT p hmem) hmem h
  exact hreads.worded hs hw (hT p hmem) hmem

theorem worded_navigate {cursor : Cursor} (hc : cursor.Worded w context) (hn : session.names.Worded w)
    (name : String) :
    Ends (navigate context path cursor name) session
      (fun next after => after.names.Worded w ∧ next.Worded w context) fun _ => True := by
  unfold navigate
  rw [ends_bind]
  refine ends_lift fun p hp => ?_
  dsimp only
  split
  · trivial
  · split
    · trivial
    · rw [ends_bind]
      refine ends_lift fun branch hbranch => ?_
      simp only [ends_bind, ends_naming]
      refine ends_lift fun owner howner => ⟨hn.relatedPlace, ?_, mem_types_of_entityType howner⟩
      simp only [List.forall_mem_append, List.forall_mem_singleton]
      exact ⟨hc.branches, worded_branch hs hw hc.owner hp hbranch⟩

theorem worded_navigateAll {cursor : Cursor} (hc : cursor.Worded w context) (hn : session.names.Worded w)
    (names : List String) :
    Ends (navigateAll context path cursor names) session
      (fun next after => after.names.Worded w ∧ next.Worded w context) fun _ => True := by
  induction names generalizing cursor session with
  | nil => exact ⟨hn, hc⟩
  | cons name rest ih =>
      unfold navigateAll
      rw [ends_bind]
      exact (worded_navigate hs hw hc hn name).imp (fun next after h => ih h.2 h.1) fun _ => id

theorem speaks_readValue {cursor : Cursor} (hc : cursor.Worded w context) (hn : session.names.Worded w)
    {p : Property} {name : String} (hp : cursor.owner.property name = .ok p) :
    Speaks w session (readValue context path cursor p) [] := by
  refine ends_readValue fun _ branch hbranch => ?_
  obtain ⟨hvar, hnames⟩ := hn.value hw cursor.place p.name
  refine ⟨hnames, Forest.Every.ofPath ?_ trivial, hvar, rfl⟩
  simp only [List.forall_mem_append, List.forall_mem_singleton]
  exact ⟨hc.branches, worded_branch hs hw hc.owner hp hbranch⟩

theorem worded_follow (hn : session.names.Worded w) (missing : PathFault) :
    Ends (follow context scope position path missing) session
      (fun reached after => after.names.Worded w ∧ reached.1.Worded w context) fun _ => True := by
  refine ends_follow ((worded_start w context scope position path session).imp
    (fun result between h => ⟨fun _ => trivial, ?_⟩) fun _ => id)
  obtain ⟨rfl, hc⟩ := h
  exact fun init last _ => worded_navigateAll hs hw hc hn init

theorem speaks_compileProperty (hn : session.names.Worded w) :
    Speaks w session (compileProperty context scope position path) [] := by
  refine ends_compileProperty_of fun missing =>
    (worded_follow hs hw hn missing).imp (fun reached after h => ?_) fun _ => id
  obtain ⟨hn, hc⟩ := h
  refine fun p hp => ⟨fun _ => speaks_readValue hs hw hc hn hp, fun related relatedId _ => ?_⟩
  exact (worded_navigate hs hw hc hn related.name).imp
    (fun next later h hid => speaks_readValue hs hw h.2 h.1 hid) fun _ => id

theorem worded_compileCollection (hn : session.names.Worded w) :
    Ends (compileCollection context scope position path) session
      (fun result after => after.names.Worded w ∧ result.1.Worded w context ∧
        w.name result.2.2.1.predicate) fun _ => True := by
  refine ends_compileCollection_of fun missing =>
    (worded_follow hs hw hn missing).imp (fun reached after h => ?_) fun _ => id
  obtain ⟨hn, hc⟩ := h
  intro p hop element hp _ hhop _
  obtain ⟨hmem, -⟩ := EntityType.mem_of_property? (EntityType.property_eq_ok.mp hp)
  exact ⟨hn, hc, hw.name _ (hs.declares_hop (hc.owner p hmem) hmem hhop)⟩

omit hs hw in
theorem worded_openScope (hn : session.names.Worded w) (outer : Scope) (lambda elementType : String) :
    Ends (openScope context outer lambda elementType) session (fun _ after => after.names.Worded w)
      fun _ => True := by
  rw [ends_openScope_iff]
  split
  · next place names hdefine =>
      unfold Naming.define at hdefine
      split at hdefine
      · simp at hdefine
      · obtain ⟨-, rfl⟩ := Prod.mk.inj (Except.ok.inj hdefine)
        exact hn
  · trivial

omit hs in
theorem worded_placeJoin (hrules : context.rules = Rule.builtin) (hn : session.names.Worded w) {join : Forest}
    (hjoin : join.Every (Branch.Worded w)) :
    Ends (placeJoin context position join) session
      (fun pattern after => after.names.Worded w ∧ pattern.group.Worded w) fun _ => True := by
  obtain ⟨hbody, hnames⟩ := hjoin.worded_place hw hn position
  rw [ends_placeJoin_iff hrules]
  split
  · trivial
  · exact ⟨hnames, Pattern.worded_group hbody⟩

omit hs hw in
theorem Speaks.both {x y : FilterM CompiledFilter} {left right : List String}
    {result : CompiledFilter → CompiledFilter → CompiledFilter} (hx : Speaks w session x left)
    (hy : ∀ after : Session, after.names.Worded w → Speaks w after y right)
    (hforest : ∀ l r, (result l r).forest = l.forest.merge r.forest)
    (hclause : ∀ l r, l.clause.Worded w → r.clause.Worded w → (result l r).clause.Worded w)
    (hstrings : ∀ l r, (result l r).clause.strings = l.clause.strings ++ r.clause.strings) :
    Speaks w session (do return result (← x) (← y)) (left ++ right) := by
  unfold Speaks
  rw [ends_bind]
  refine hx.imp (fun l between hl => ?_) fun _ => id
  rw [ends_bind]
  refine (hy between hl.1).imp (fun r after hr => ?_) fun _ => id
  obtain ⟨-, hlf, hlc, rfl⟩ := hl
  obtain ⟨hnames, hrf, hrc, rfl⟩ := hr
  refine ⟨hnames, ?_, hclause l r hlc hrc, hstrings l r⟩
  rw [hforest]
  exact hlf.merge hrf

theorem speaks_compile (hnumeral : ∀ value text, numberText value = .ok text → w.numeral text)
    (hrules : context.rules = Rule.builtin) (f : Filter) (hn : session.names.Worded w) :
    Speaks w session (f.compile context scope position) f.strings := by
  induction f generalizing session scope position with
  | string value => exact ⟨hn, trivial, trivial, rfl⟩
  | boolean value => exact ⟨hn, trivial, trivial, rfl⟩
  | null => exact ⟨hn, trivial, hw.var _, rfl⟩
  | number value =>
      unfold Speaks compile
      cases htext : numberText value with
      | error e => trivial
      | ok text => exact ⟨hn, trivial, hnumeral value text htext, rfl⟩
  | and left right ihl ihr =>
      exact (ihl hn).both (fun _ h => ihr h) (fun _ _ => rfl) (fun _ _ => And.intro) fun _ _ => rfl
  | or left right ihl ihr =>
      exact (ihl hn).both (fun _ h => ihr h) (fun _ _ => rfl) (fun _ _ => And.intro) fun _ _ => rfl
  | eq left right ihl ihr =>
      exact (ihl hn).both (fun _ h => ihr h) (fun _ _ => rfl)
        (fun l r hl hr => Sparql.Clause.worded_nullSafeEqual hl hr _)
        fun l r => Sparql.Clause.strings_nullSafeEqual l.clause r.clause _
  | parentheses inner ih => exact ih hn
  | property path => exact speaks_compileProperty hs hw hn
  | any path name predicate ih =>
      unfold Speaks compile
      rw [ends_bind]
      refine (worded_compileCollection hs hw hn).imp (fun result between h => ?_) fun _ => id
      obtain ⟨cursor, p, hop, t⟩ := result
      obtain ⟨hn, hc, hhop⟩ := h
      dsimp only
      rw [ends_bind]
      refine (worded_openScope hn position.scope name t.name).imp (fun result opened hn => ?_) fun _ => id
      obtain ⟨key, inner⟩ := result
      dsimp only
      rw [ends_bind]
      refine (ih hn).imp (fun body later hbody => ?_) fun _ => id
      obtain ⟨hn, hforest, hclause, hstrings⟩ := hbody
      have hjoin : (joinForest cursor.branches ⟨p.name, hop, name, key⟩ t.name body.forest).Every
          (Branch.Worded w) := by
        refine Forest.Every.merge (Forest.Every.ofPath hc.branches ?_) (hforest.filterTop _)
        exact ⟨hhop, hforest.filterTop _, trivial⟩
      rw [ends_bind]
      refine (worded_placeJoin hw hrules hn hjoin).imp (fun pattern after h => ?_) fun _ => id
      exact ⟨h.1, Forest.Every.ofPath hc.branches trivial, ⟨h.2, hclause⟩, hstrings⟩

end Steps
end Filter
end EntityGraph
