import EntityGraph.Proofs.Filter.Unquoted
import EntityGraph.Proofs.Filter.WellFormed
import EntityGraph.Proofs.Placement.Spans

/-!
# What paths of properties can reach

A path starts at the filtered entity, or at that of a lambda variable in scope, and names are made up along
it. So the entity or the value that it leads to is in the tree of an entity that can be seen from where the
path is written, and trees that are apart stay apart.
-/
namespace EntityGraph

open Sparql

/-- A step that makes up names below the tops of the trees. -/
structure Session.Below (roots : Set Place) (rest : Set Nat) (session after : Session) : Prop where
  drawn : after.drawn = session.drawn
  namespaces : after.names.namespaces = session.names.namespaces
  grows : session.names.Grows after.names
  next : session.names.next ≤ after.names.next
  parted : after.names.Parted roots rest

namespace Session.Below

variable {roots : Set Place} {rest : Set Nat} {session after later : Session}

theorem refl (h : session.names.Parted roots rest) : session.Below roots rest session :=
  ⟨rfl, rfl, .refl _, le_refl _, h⟩

theorem trans (h : session.Below roots rest after) (h' : after.Below roots rest later) :
    session.Below roots rest later :=
  ⟨h'.drawn.trans h.drawn, h'.namespaces.trans h.namespaces, h.grows.trans h'.grows,
    h.next.trans h'.next, h'.parted⟩

end Session.Below

namespace Naming.Parted

theorem loose_lt {names : Naming} {roots : Set Place} {rest : Set Nat} (h : names.Parted roots rest) {k : Nat}
    (hk : k ∈ rest) : k < names.next := by
  obtain ⟨label, -, -, hloose, -⟩ := h
  exact (hloose k hk).1

variable {names : Naming} {roots : Set Place} {rest : Set Nat} {l q : Place}

theorem relatedPlace (h : names.Parted roots rest) (hl : l ∈ roots) (hq : names.Reaches l q) (name : String) :
    (names.relatedPlace q name).2.Parted roots rest ∧ names.next ≤ (names.relatedPlace q name).2.next :=
  h.extend (keeps_relatedPlace names q name).1 fun hlabel => hlabel.relatedPlace (h.reaches_lt hl hq) name

theorem value (h : names.Parted roots rest) (hl : l ∈ roots) (hq : names.Reaches l q) (name : String) :
    (names.value q name).2.Parted roots rest ∧ names.next ≤ (names.value q name).2.next :=
  h.extend (keeps_value names q name).1 fun hlabel => hlabel.value_made (h.reaches_lt hl hq) name

end Naming.Parted

namespace Filter

variable {context : FilterContext} {scope : FilterScope} {position : Position} {session after : Session}
  {path : List String} {visible roots : Set Place} {rest : Set Nat}

/-- Where a path has led: to an entity in one of the trees that can be seen, over branches of the schema. -/
structure Cursor.InSight (context : FilterContext) (visible : Set Place) (position : Position)
    (names : Naming) (cursor : Cursor) : Prop where
  place : ∃ l ∈ visible, names.Reaches l cursor.place
  branches : ∀ branch ∈ cursor.branches, branch.Declared context.schema
  complex : ∀ b, Branch.property b ∈ cursor.branches → b.isComplex = true
  owner : ∀ p ∈ cursor.owner.properties, cursor.owner ∈ context.schema.types
  mentions : ∀ {names' last v}, names.Grows names' →
    (∀ name, names'.resolve position.scope name = names.resolve position.scope name) →
    last.Mentions names' ⟨cursor.place, position.scope⟩ v →
    (Forest.ofPath cursor.branches last).Mentions names' position v

/-- The entities that can be seen: the filtered one, and those of the lambda variables in scope. -/
structure Sees (visible : Set Place) (position : Position) (names : Naming) : Prop where
  place : position.place ∈ visible
  lambda : ∀ {name found}, names.resolve position.scope name = .ok found → found.place ∈ visible

theorem inSight_start (hsees : Sees visible position session.names) :
    Ends (start context scope position path) session
      (fun result after => after = session ∧ result.1.InSight context visible position session.names)
      fun _ => True := by
  unfold start
  rw [ends_bind]
  refine ends_lift fun owner howner => ?_
  have hhere : Cursor.InSight context visible position session.names
      { branches := [], owner, place := position.place } :=
    ⟨⟨_, hsees.place, .self⟩, by simp, by simp, mem_types_of_entityType howner, fun _ _ h => h⟩
  cases path with
  | nil => exact ⟨rfl, hhere⟩
  | cons first rest =>
      simp only
      split
      · exact ⟨rfl, hhere⟩
      · simp only [ends_bind, ends_get]
        split
        · trivial
        · next found hfound =>
            rw [ends_bind]
            refine ends_lift fun owner howner => ⟨rfl, ⟨_, hsees.lambda hfound, .self⟩, ?_, by simp,
              mem_types_of_entityType howner, fun _ hsame h => .belowLambda ((hsame first).trans hfound) h⟩
            simp [Branch.Declared]

/-- A value in one of the trees that can be seen was compiled. -/
structure Reaching (context : FilterContext) (visible roots : Set Place) (rest : Set Nat) (session : Session)
    (compiled : CompiledFilter) (after : Session) : Prop where
  below : session.Below roots rest after
  declared : compiled.forest.Every (Branch.Declared context.schema)
  pruned : compiled.forest.Pruned
  clause : ∃ var, compiled.clause = .var var ∧ ∃ l ∈ visible, after.names.InTree l var

section Steps

variable (hs : context.schema.Accepted)
include hs

theorem declared_branch {T : EntityType} {p : Property} {name : String} {branch : Branch}
    (hT : ∀ p ∈ T.properties, T ∈ context.schema.types) (hp : T.property name = .ok p)
    (h : Branch.ofProperty context.schema T p = .ok branch) :
    ∃ b, branch = .property b ∧ b.name = name ∧ b.isComplex = !p.isElementary ∧
      (Branch.property b).Declared context.schema := by
  obtain ⟨hmem, rfl⟩ := EntityType.mem_of_property? (EntityType.property_eq_ok.mp hp)
  obtain ⟨b, rfl, hreads⟩ := hs.reads_of_ofProperty (hT p hmem) hmem h
  exact ⟨b, rfl, hreads.name, hreads.isComplex, T, hT p hmem, p, hmem, hreads⟩

theorem inSight_navigate {cursor : Cursor} (hc : cursor.InSight context visible position session.names)
    (hvisible : visible ⊆ roots) (hparted : session.names.Parted roots rest) (name : String) :
    Ends (navigate context path cursor name) session
      (fun next after => session.Below roots rest after ∧ next.InSight context visible position after.names)
      fun _ => True := by
  unfold navigate
  rw [ends_bind]
  refine ends_lift fun p hp => ?_
  dsimp only
  split
  · trivial
  · next he =>
      split
      · trivial
      · rw [ends_bind]
        refine ends_lift fun branch hbranch => ?_
        simp only [ends_bind, ends_naming]
        refine ends_lift fun owner howner => ?_
        obtain ⟨b, rfl, rfl, hcomplex, hdeclared⟩ := declared_branch hs hc.owner hp hbranch
        have hb : b.isComplex = true := by simpa [he] using hcomplex
        obtain ⟨l, hl, hreaches⟩ := hc.place
        obtain ⟨hkeeps, hr⟩ := Naming.keeps_relatedPlace session.names cursor.place b.name
        obtain ⟨hafter, hnext⟩ := hparted.relatedPlace (hvisible hl) hreaches b.name
        refine ⟨⟨rfl, hkeeps.namespaces, hkeeps.grows, hnext, hafter⟩, ⟨?_, ?_, ?_,
          mem_types_of_entityType howner, ?_⟩⟩
        · exact ⟨l, hl, (hkeeps.grows.reaches hreaches).step hr⟩
        · simp only [List.forall_mem_append, List.forall_mem_singleton]
          exact ⟨hc.branches, hdeclared⟩
        · intro b' hb'
          obtain hb' | hb' := List.mem_append.mp hb'
          · exact hc.complex b' hb'
          · obtain rfl : b' = b := by simpa using hb'
            exact hb
        · intro names' last v hgrows hsame hmentions
          rw [Forest.ofPath_append]
          refine hc.mentions (hkeeps.grows.trans hgrows)
            (fun other => ?_) (.belowRelated hb (hgrows.related hr) hmentions)
          rw [hsame, hkeeps.resolve]

theorem inSight_navigateAll {cursor : Cursor} (hc : cursor.InSight context visible position session.names)
    (hvisible : visible ⊆ roots) (hparted : session.names.Parted roots rest) (names : List String) :
    Ends (navigateAll context path cursor names) session
      (fun next after => session.Below roots rest after ∧ next.InSight context visible position after.names)
      fun _ => True := by
  induction names generalizing cursor session with
  | nil => exact ⟨.refl hparted, hc⟩
  | cons name others ih =>
      unfold navigateAll
      rw [ends_bind]
      refine (inSight_navigate hs hc hvisible hparted name).imp (fun next between h => ?_) fun _ => id
      exact (ih h.2 h.1.parted).imp (fun _ _ h' => ⟨h.1.trans h'.1, h'.2⟩) fun _ => id

theorem inSight_follow (hsees : Sees visible position session.names) (hvisible : visible ⊆ roots)
    (hparted : session.names.Parted roots rest) (missing : PathFault) :
    Ends (follow context scope position path missing) session
      (fun reached after => session.Below roots rest after ∧
        reached.1.InSight context visible position after.names)
      fun _ => True := by
  refine ends_follow ((inSight_start hsees).imp (fun result between h => ⟨fun _ => trivial, ?_⟩) fun _ => id)
  obtain ⟨rfl, hc⟩ := h
  exact fun init last _ => inSight_navigateAll hs hc hvisible hparted init

theorem inSight_compileCollection (hsees : Sees visible position session.names) (hvisible : visible ⊆ roots)
    (hparted : session.names.Parted roots rest) :
    Ends (compileCollection context scope position path) session
      (fun result after => session.Below roots rest after ∧
        result.1.InSight context visible position after.names ∧
        ∃ T ∈ context.schema.types, result.2.1 ∈ T.properties ∧
          context.schema.hop result.2.1 = .ok result.2.2.1)
      fun _ => True := by
  refine ends_compileCollection_of fun missing => (inSight_follow hs hsees hvisible hparted missing).imp
    (fun reached after h => ?_) fun _ => id
  obtain ⟨hbelow, hc⟩ := h
  intro p hop element hp _ hhop _
  obtain ⟨hmem, -⟩ := EntityType.mem_of_property? (EntityType.property_eq_ok.mp hp)
  exact ⟨hbelow, hc, reached.1.owner, hc.owner p hmem, hmem, hhop⟩

theorem inSight_readValue {cursor : Cursor} (hbelow : session.Below roots rest after)
    (hc : cursor.InSight context visible position after.names) (hvisible : visible ⊆ roots) {p : Property}
    {name : String} (hp : cursor.owner.property name = .ok p) :
    Ends (readValue context path cursor p) after (Reaching context visible roots rest session)
      fun _ => True := by
  refine ends_readValue fun _ branch hbranch => ?_
  obtain ⟨b, rfl, -, -, hdeclared⟩ := declared_branch hs hc.owner hp hbranch
  obtain ⟨l, hl, hreaches⟩ := hc.place
  obtain ⟨hkeeps, hv⟩ := Naming.keeps_value after.names cursor.place p.name
  obtain ⟨hparted, hnext⟩ := hbelow.parted.value (hvisible hl) hreaches p.name
  refine ⟨hbelow.trans ⟨rfl, hkeeps.namespaces, hkeeps.grows, hnext, hparted⟩, ?_, ?_, _, rfl, l, hl,
    (hkeeps.grows.reaches hreaches).inTree_value hv⟩
  · refine Forest.Every.ofPath ?_ trivial
    simp only [List.forall_mem_append, List.forall_mem_singleton]
    exact ⟨hc.branches, hdeclared⟩
  · rw [Forest.ofPath_append]
    exact Forest.Pruned.ofPath hc.complex ⟨fun _ _ _ => rfl, trivial, trivial⟩

/-- The value at the end of a path is in one of the trees that can be seen. -/
theorem inSight_compileProperty (hsees : Sees visible position session.names) (hvisible : visible ⊆ roots)
    (hparted : session.names.Parted roots rest) :
    Ends (compileProperty context scope position path) session (Reaching context visible roots rest session)
      fun _ => True := by
  refine ends_compileProperty_of fun missing => (inSight_follow hs hsees hvisible hparted missing).imp
    (fun reached after h => ?_) fun _ => id
  obtain ⟨hbelow, hc⟩ := h
  refine fun p hp => ⟨fun _ => inSight_readValue hs hbelow hc hvisible hp, fun related relatedId _ => ?_⟩
  exact (inSight_navigate hs hc hvisible hbelow.parted related.name).imp
    (fun next later h hid => inSight_readValue hs (hbelow.trans h.1) h.2 hvisible hid) fun _ => id

end Steps

end Filter
end EntityGraph
