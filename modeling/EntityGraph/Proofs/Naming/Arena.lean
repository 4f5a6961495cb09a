import EntityGraph.Proofs.Naming.History
import EntityGraph.Proofs.Naming.Nearest

/-!
# Scopes in an arena

Scopes can be kept in an arena: one record for each scope, with the handle of the scope around it, the scopes
that were entered from it with their keys, and its definitions. A lambda variable is then looked up in a loop
that follows the links outwards.

In every arena that its operations lead to, the handles stand for the scopes that were opened, each for one of
its own, and scopes around others have smaller handles. So the loop ends, with what the variable stands for in
the scope; whoever enters a scope again with the same key gets the same handle, then and ever after.
-/
namespace EntityGraph

structure StoredScope where
  root : Place
  parent : Option Nat
  children : List (ScopeKey × Nat) := []
  namespaces : List (String × Namespace) := []

structure Arena where
  mappings : Naming := {}
  scopes : List StoredScope := []

def Naming.Request.IsMapping : Naming.Request → Prop
  | .rootScope .. | .scope .. | .define .. => False
  | _ => True

namespace Arena

def rootScope (arena : Arena) (root : Place) : Nat × Arena :=
  (arena.scopes.length, { arena with scopes := arena.scopes ++ [{ root, parent := none }] })

/-- One more scope, which was entered from another one with a key. -/
def opened (arena : Arena) (s : Nat) (key : ScopeKey) (root : Place) : Arena :=
  let scopes := arena.scopes ++ [{ root, parent := some s }]
  { arena with scopes := scopes.modify s fun outer =>
    { outer with children := outer.children ++ [(key, arena.scopes.length)] } }

/-- The scope that is entered with a key, if there is one to be entered from. -/
def enter (arena : Arena) (s : Nat) (key : ScopeKey) : Option (Nat × Arena) :=
  match arena.scopes[s]? with
  | none => none
  | some outer =>
    match outer.children.lookup key with
    | some child => some (child, arena)
    | none => some (arena.scopes.length, arena.opened s key outer.root)

def define (arena : Arena) (s : Nat) (name entityType : String) : Option (Except ScopeError Place × Arena) :=
  match arena.scopes[s]? with
  | none => none
  | some scope =>
    match scope.namespaces.lookup name with
    | some _ => some (.error (.alreadyBound name), arena)
    | none =>
      let (place, mappings) := arena.mappings.newPlace
      some (.ok place, { mappings, scopes := arena.scopes.modify s fun scope =>
        { scope with namespaces := scope.namespaces ++ [(name, ⟨place, entityType⟩)] } })

/-- The loop that looks a lambda variable up: where it is now, and what it ends with. -/
inductive Walk (arena : Arena) (name : String) : Option Nat → Except ScopeError Namespace → Prop
  | notFound : Walk arena name none (.error (.notBound name))
  | found {s : Nat} {scope : StoredScope} {found : Namespace} (hs : arena.scopes[s]? = some scope)
      (h : scope.namespaces.lookup name = some found) : Walk arena name (some s) (.ok found)
  | outwards {s : Nat} {scope : StoredScope} {outcome : Except ScopeError Namespace}
      (hs : arena.scopes[s]? = some scope) (h : scope.namespaces.lookup name = none)
      (hrest : Walk arena name scope.parent outcome) : Walk arena name (some s) outcome

inductive Step (arena : Arena) : Arena → Prop
  | mapping (request : Naming.Request) (h : request.IsMapping) :
      Step arena { arena with mappings := (arena.mappings.answer request).2 }
  | rootScope (root : Place) : Step arena (arena.rootScope root).2
  | enter {s child : Nat} {key : ScopeKey} {arena' : Arena} (h : arena.enter s key = some (child, arena')) :
      Step arena arena'
  | define {s : Nat} {name entityType : String} {outcome : Except ScopeError Place} {arena' : Arena}
      (h : arena.define s name entityType = some (outcome, arena')) : Step arena arena'

/-- Operations lead from the first arena to the second one. -/
def Reaches : Arena → Arena → Prop := Relation.ReflTransGen Step

variable {arena arena' : Arena} {names : Naming} {shown : List Scope} {scope : Scope} {s : Nat}
  {stored : StoredScope} {key : ScopeKey} {name : String}

/-- A record shows a scope. -/
structure Records (names : Naming) (shown : List Scope) (s : Nat) (stored : StoredScope)
    (scope : Scope) : Prop where
  root : stored.root = scope.root
  parent : match stored.parent with
    | none => scope.keys = []
    | some outer => outer < s ∧ ∃ around key, shown[outer]? = some around ∧ scope = around.enter key
  children : ∀ key child, stored.children.lookup key = some child ↔ shown[child]? = some (scope.enter key)
  namespaces : ∀ name, stored.namespaces.lookup name = names.defined? scope name

/-- The handles of the arena stand for the scopes, which are all that were opened. -/
structure Shows (arena : Arena) (names : Naming) (shown : List Scope) : Prop where
  mappings : arena.mappings = { names with chains := 0, namespaces := [] }
  length : arena.scopes.length = shown.length
  nodup : shown.Nodup
  chains : ∀ scope ∈ shown, scope.chain < names.chains
  defined : ∀ scope name found, names.defined? scope name = some found → scope ∈ shown
  records : ∀ s stored scope, arena.scopes[s]? = some stored → shown[s]? = some scope →
    Records names shown s stored scope

theorem shows_empty : Shows {} {} [] where
  mappings := rfl
  length := rfl
  nodup := List.nodup_nil
  chains := by simp
  defined _ _ _ h := by simp [Naming.defined?] at h
  records _ _ _ h := by simp at h

theorem Shows.exists_stored (h : arena.Shows names shown) (hs : shown[s]? = some scope) :
    ∃ stored, arena.scopes[s]? = some stored ∧ Records names shown s stored scope := by
  obtain ⟨hlt, -⟩ := List.getElem?_eq_some_iff.mp hs
  have hstored := List.getElem?_eq_getElem (h.length ▸ hlt : s < arena.scopes.length)
  exact ⟨_, hstored, h.records _ _ _ hstored hs⟩

theorem Shows.exists_shown (h : arena.Shows names shown) (hs : arena.scopes[s]? = some stored) :
    ∃ scope, shown[s]? = some scope ∧ Records names shown s stored scope := by
  obtain ⟨hlt, -⟩ := List.getElem?_eq_some_iff.mp hs
  have hshown := List.getElem?_eq_getElem (h.length ▸ hlt : s < shown.length)
  exact ⟨_, hshown, h.records _ _ _ hs hshown⟩

theorem Shows.eq_of_shown (h : arena.Shows names shown) {t : Nat} (hs : shown[s]? = some scope)
    (ht : shown[t]? = some scope) : s = t := by
  obtain ⟨hlt, heq⟩ := List.getElem?_eq_some_iff.mp hs
  obtain ⟨hlt', heq'⟩ := List.getElem?_eq_some_iff.mp ht
  exact (h.nodup.getElem_inj_iff).mp (heq.trans heq'.symm)

theorem Records.congr {names' : Naming} (h : Records names shown s stored scope)
    (hdefined : ∀ name, names'.defined? scope name = names.defined? scope name) :
    Records names' shown s stored scope :=
  ⟨h.root, h.parent, h.children, fun name => (h.namespaces name).trans (hdefined name).symm⟩

/-- A record shows the same scope when a scope is opened that is not entered from it. -/
theorem Records.append {opened : Scope} (h : Records names shown s stored scope)
    (hopened : ∀ key, opened ≠ scope.enter key) : Records names (shown ++ [opened]) s stored scope where
  root := h.root
  parent := by
    have hparent := h.parent
    cases hp : stored.parent with
    | none => simpa only [hp] using hparent
    | some outer =>
        simp only [hp] at hparent ⊢
        obtain ⟨hlt, around, key, hshown, heq⟩ := hparent
        exact ⟨hlt, around, key, getElem?_append_singleton.mpr (Or.inl hshown), heq⟩
  children key child := by
    rw [h.children, getElem?_append_singleton]
    exact ⟨Or.inl, fun hor => hor.resolve_right fun heq => hopened key heq.2.symm⟩
  namespaces := h.namespaces

theorem Shows.enter_not_mem (h : arena.Shows names shown) (hnew : scope ∉ shown) (key : ScopeKey) :
    scope.enter key ∉ shown := by
  intro hmem
  obtain ⟨t, ht⟩ := List.mem_iff_getElem?.mp hmem
  obtain ⟨stored, -, hrecords⟩ := h.exists_stored ht
  have hparent := hrecords.parent
  cases hp : stored.parent with
  | none => simp [hp, Scope.enter] at hparent
  | some outer =>
      simp only [hp] at hparent
      obtain ⟨-, around, key', hshown, heq⟩ := hparent
      obtain rfl : scope = around := by
        cases scope
        cases around
        simp_all [Scope.enter]
      exact hnew (List.mem_of_getElem? hshown)

theorem Shows.records_opened (h : arena.Shows names shown) {opened : Scope} (hnew : opened ∉ shown)
    (parent : Option Nat)
    (hparent : match parent with
      | none => opened.keys = []
      | some outer => ∃ around key, shown[outer]? = some around ∧ opened = around.enter key) :
    Records names (shown ++ [opened]) shown.length { root := opened.root, parent } opened where
  root := rfl
  parent := by
    cases parent with
    | none => exact hparent
    | some outer =>
        obtain ⟨around, key, hshown, heq⟩ := hparent
        exact ⟨(List.getElem?_eq_some_iff.mp hshown).1, around, key,
          getElem?_append_singleton.mpr (Or.inl hshown), heq⟩
  children key child := by
    have hself : opened.enter key ≠ opened := fun heq => by
      have := congrArg (fun s : Scope => s.keys.length) heq
      simp [Scope.enter] at this
    simp only [List.lookup_nil, reduceCtorEq, false_iff, getElem?_append_singleton, not_or, not_and]
    exact ⟨fun hshown => h.enter_not_mem hnew key (List.mem_of_getElem? hshown), fun _ => hself⟩
  namespaces name := by
    cases hd : names.defined? opened name with
    | none => rfl
    | some found => exact absurd (h.defined _ _ _ hd) hnew

theorem Shows.nodup_append (h : arena.Shows names shown) {opened : Scope} (hnew : opened ∉ shown) :
    (shown ++ [opened]).Nodup :=
  List.nodup_append.mpr ⟨h.nodup, List.nodup_singleton _, fun _ ha _ hb heq =>
    hnew (List.mem_singleton.mp hb ▸ heq ▸ ha)⟩

theorem Shows.rootScope (h : arena.Shows names shown) (root : Place) :
    (arena.rootScope root).2.Shows (names.rootScope root).2 (shown ++ [(names.rootScope root).1]) := by
  have hnew : (names.rootScope root).1 ∉ shown := fun hmem => Nat.lt_irrefl _ (h.chains _ hmem)
  refine ⟨h.mappings, ?_, h.nodup_append hnew, fun scope hscope => ?_,
    fun scope name found hfound => List.mem_append_left _ (h.defined _ _ _ hfound),
    fun s stored scope hstored hscope => ?_⟩
  · simp [Arena.rootScope, h.length]
  · obtain hscope | hscope := List.mem_append.mp hscope
    · exact Nat.lt_succ_of_lt (h.chains _ hscope)
    · rw [List.mem_singleton.mp hscope]
      exact Nat.lt_succ_self names.chains
  · obtain hscope | ⟨rfl, rfl⟩ := getElem?_append_singleton.mp hscope
    · obtain hstored | ⟨rfl, -⟩ := getElem?_append_singleton.mp hstored
      · have hkeys : ∀ key, (names.rootScope root).1 ≠ scope.enter key := fun key heq => by
          simp [Naming.rootScope, Scope.enter] at heq
        exact ((h.records s stored scope hstored hscope).append hkeys).congr fun _ => rfl
      · rw [h.length] at hscope
        simp at hscope
    · obtain hstored | ⟨-, rfl⟩ := getElem?_append_singleton.mp hstored
      · rw [← h.length] at hstored
        simp at hstored
      · exact (h.records_opened hnew none rfl).congr fun _ => rfl

theorem enter_inj {scope scope' : Scope} {key key' : ScopeKey} (h : scope.enter key = scope'.enter key') :
    scope = scope' ∧ key = key' := by
  cases scope
  cases scope'
  simp_all [Scope.enter]

theorem Records.enter (h : Records names shown s stored scope) (hnone : stored.children.lookup key = none)
    {child : Nat} (hchild : child = shown.length) :
    Records names (shown ++ [scope.enter key]) s
      { stored with children := stored.children ++ [(key, child)] } scope where
  root := h.root
  parent := by
    have hparent := h.parent
    cases hp : stored.parent with
    | none => simpa only [hp] using hparent
    | some outer =>
        simp only [hp] at hparent ⊢
        obtain ⟨hlt, around, key, hshown, heq⟩ := hparent
        exact ⟨hlt, around, key, getElem?_append_singleton.mpr (Or.inl hshown), heq⟩
  children key' child' := by
    rw [lookup_append_singleton, getElem?_append_singleton, ← h.children]
    by_cases hkey : key' = key
    · subst hkey
      simp [hnone, hchild, eq_comm]
    · have hne : scope.enter key' ≠ scope.enter key := fun heq => hkey (enter_inj heq).2
      simp [hkey, hne]
  namespaces := h.namespaces

/-- Entering a scope finds the scope that was entered with the key before, or opens it. -/
theorem Shows.enter (h : arena.Shows names shown) (hs : shown[s]? = some scope) (key : ScopeKey) :
    ∃ child grown more, arena.enter s key = some (child, grown) ∧ grown.Shows names (shown ++ more) ∧
      (shown ++ more)[child]? = some (scope.enter key) := by
  obtain ⟨stored, hstored, hrecords⟩ := h.exists_stored hs
  cases hchild : stored.children.lookup key with
  | some child =>
      refine ⟨child, arena, [], ?_, by simpa using h, by simpa using (hrecords.children key child).mp hchild⟩
      simp only [Arena.enter, hstored, hchild]
  | none =>
      have hnew : scope.enter key ∉ shown := fun hmem => by
        obtain ⟨t, ht⟩ := List.mem_iff_getElem?.mp hmem
        simp [(hrecords.children key t).mpr ht] at hchild
      refine ⟨arena.scopes.length, arena.opened s key stored.root, [scope.enter key],
        by simp only [Arena.enter, hstored, hchild], ?_,
        getElem?_append_singleton.mpr (Or.inr ⟨h.length, rfl⟩)⟩
      refine ⟨h.mappings, by simp [opened, h.length], h.nodup_append hnew, fun inner hinner => ?_,
        fun inner name found hfound => List.mem_append_left _ (h.defined _ _ _ hfound),
        fun t stored' inner hstored' hinner => ?_⟩
      · obtain hinner | hinner := List.mem_append.mp hinner
        · exact h.chains _ hinner
        · rw [List.mem_singleton.mp hinner]
          exact h.chains scope (List.mem_of_getElem? hs)
      · rw [opened, List.getElem?_modify] at hstored'
        obtain ⟨before, hbefore, rfl⟩ := Option.map_eq_some_iff.mp hstored'
        obtain hinner | ⟨rfl, rfl⟩ := getElem?_append_singleton.mp hinner
        · obtain hbefore | ⟨rfl, -⟩ := getElem?_append_singleton.mp hbefore
          · have hrecords' := h.records t before inner hbefore hinner
            by_cases ht : s = t
            · subst ht
              obtain rfl : scope = inner := Option.some.inj (hs.symm.trans hinner)
              obtain rfl : stored = before := Option.some.inj (hstored.symm.trans hbefore)
              rw [if_pos rfl]
              exact hrecords.enter hchild h.length
            · have hkeys : ∀ key', scope.enter key ≠ inner.enter key' := fun key' heq =>
                ht (h.eq_of_shown hs ((enter_inj heq).1 ▸ hinner))
              simpa only [if_neg ht] using hrecords'.append hkeys
          · rw [h.length] at hinner
            simp at hinner
        · have hlt : s < shown.length := (List.getElem?_eq_some_iff.mp hs).1
          obtain hbefore | ⟨-, rfl⟩ := getElem?_append_singleton.mp hbefore
          · rw [← h.length] at hbefore
            simp at hbefore
          · rw [if_neg hlt.ne, show stored.root = (scope.enter key).root from hrecords.root]
            exact h.records_opened hnew (some s) ⟨scope, key, hs, rfl⟩

/-- A lambda variable is bound in a record. -/
def bound (arena : Arena) (s : Nat) (name entityType : String) : Arena where
  mappings := arena.mappings.newPlace.2
  scopes := arena.scopes.modify s fun scope =>
    { scope with namespaces := scope.namespaces ++ [(name, ⟨arena.mappings.newPlace.1, entityType⟩)] }

theorem Shows.bound (h : arena.Shows names shown) (hs : shown[s]? = some scope)
    (hnone : names.defined? scope name = none) (entityType : String) :
    (arena.bound s name entityType).Shows (names.bound scope name entityType) shown := by
  have hplace : arena.mappings.newPlace.1 = ⟨names.next⟩ := by rw [h.mappings]; rfl
  refine ⟨?_, by simp [Arena.bound, h.length], h.nodup, h.chains, fun inner name' found hfound => ?_,
    fun t stored inner hstored hinner => ?_⟩
  · rw [Arena.bound, h.mappings]
    rfl
  · obtain hfound | ⟨rfl, -⟩ := lookup_of_append hfound
    · exact h.defined _ _ _ hfound
    · exact List.mem_of_getElem? hs
  · rw [Arena.bound, List.getElem?_modify] at hstored
    obtain ⟨before, hbefore, rfl⟩ := Option.map_eq_some_iff.mp hstored
    have hrecords := h.records t before inner hbefore hinner
    by_cases ht : s = t
    · subst ht
      obtain rfl : scope = inner := Option.some.inj (hs.symm.trans hinner)
      rw [if_pos rfl, hplace]
      refine ⟨hrecords.root, hrecords.parent, hrecords.children, fun name' => ?_⟩
      rw [Naming.defined?_bound, lookup_append_singleton, hrecords.namespaces]
      simp
    · have hne : inner ≠ scope := fun heq => ht (h.eq_of_shown hs (heq ▸ hinner))
      rw [if_neg ht]
      exact hrecords.congr fun name' => by simp [Naming.defined?_bound, hne]

/-- Defining a lambda variable fails exactly where the naming fails. -/
theorem Shows.define (h : arena.Shows names shown) (hs : shown[s]? = some scope) (name entityType : String) :
    (∃ found, names.defined? scope name = some found ∧
      arena.define s name entityType = some (.error (.alreadyBound name), arena)) ∨
    (names.defined? scope name = none ∧
      arena.define s name entityType = some (.ok ⟨names.next⟩, arena.bound s name entityType)) := by
  obtain ⟨stored, hstored, hrecords⟩ := h.exists_stored hs
  have hplace : arena.mappings.newPlace.1 = ⟨names.next⟩ := by rw [h.mappings]; rfl
  cases hd : names.defined? scope name with
  | some found =>
      refine Or.inl ⟨found, rfl, ?_⟩
      simp only [Arena.define, hstored, hrecords.namespaces, hd]
  | none =>
      refine Or.inr ⟨rfl, ?_⟩
      simp only [Arena.define, hstored, hrecords.namespaces, hd, Arena.bound, ← hplace]

theorem answer_mapping {request : Naming.Request} (hrequest : request.IsMapping) (names : Naming) :
    (({ names with chains := 0, namespaces := [] } : Naming).answer request).2 =
        { (names.answer request).2 with chains := 0, namespaces := [] } ∧
      (names.answer request).2.chains = names.chains ∧
      (names.answer request).2.namespaces = names.namespaces := by
  cases request with
  | newPlace => exact ⟨rfl, rfl, rfl⟩
  | fresh => exact ⟨rfl, rfl, rfl⟩
  | value q name =>
      cases h : names.values.lookup (q, name) <;>
        simp [Naming.answer, Naming.value, Naming.value?, h, Naming.fresh]
  | link q name v =>
      cases h : names.values.lookup (q, name) <;> simp [Naming.answer, Naming.link, Naming.value?, h]
  | related q name =>
      cases h : names.related.lookup (q, name) <;>
        simp [Naming.answer, Naming.relatedPlace, Naming.related?, h, Naming.newPlace]
  | rootScope root => exact hrequest.elim
  | scope outer key => exact hrequest.elim
  | define scope name entityType => exact hrequest.elim

theorem Shows.mapping (h : arena.Shows names shown) {request : Naming.Request}
    (hrequest : request.IsMapping) :
    Shows { arena with mappings := (arena.mappings.answer request).2 } (names.answer request).2 shown := by
  obtain ⟨hanswer, hchains, hnamespaces⟩ := answer_mapping hrequest names
  have hdefined : ∀ scope name, (names.answer request).2.defined? scope name = names.defined? scope name :=
    fun scope name => by rw [Naming.defined?, hnamespaces, Naming.defined?]
  refine ⟨?_, h.length, h.nodup, fun scope hscope => hchains ▸ h.chains scope hscope,
    fun scope name found hfound => h.defined scope name found (hdefined scope name ▸ hfound),
    fun s stored scope hstored hscope => (h.records s stored scope hstored hscope).congr (hdefined scope)⟩
  rw [h.mappings]
  exact hanswer

theorem Shows.step (h : arena.Shows names shown) (hstep : arena.Step arena') :
    ∃ request more, arena'.Shows (names.answer request).2 (shown ++ more) := by
  cases hstep with
  | mapping request hrequest => exact ⟨request, [], by simpa using h.mapping hrequest⟩
  | rootScope root => exact ⟨.rootScope root, _, h.rootScope root⟩
  | @enter s child key _ henter =>
      cases hstored : arena.scopes[s]? with
      | none => simp [Arena.enter, hstored] at henter
      | some stored =>
          obtain ⟨scope, hs, -⟩ := h.exists_shown hstored
          obtain ⟨child', grown, more, heq, hgrown, -⟩ := h.enter hs key
          obtain ⟨-, rfl⟩ := Prod.mk.inj (Option.some.inj (heq.symm.trans henter))
          exact ⟨.scope scope key, more, hgrown⟩
  | @define s name entityType outcome _ hdefine =>
      cases hstored : arena.scopes[s]? with
      | none => simp [Arena.define, hstored] at hdefine
      | some stored =>
          obtain ⟨scope, hs, -⟩ := h.exists_shown hstored
          refine ⟨.define scope name entityType, [], ?_⟩
          rw [List.append_nil]
          obtain ⟨found, hfound, heq⟩ | ⟨hnone, heq⟩ := h.define hs name entityType
          · obtain ⟨-, rfl⟩ := Prod.mk.inj (Option.some.inj (heq.symm.trans hdefine))
            simpa only [Naming.answer, Naming.define, hfound] using h
          · obtain ⟨-, rfl⟩ := Prod.mk.inj (Option.some.inj (heq.symm.trans hdefine))
            simp only [Naming.answer, Naming.define, hnone]
            exact h.bound hs hnone entityType

theorem Shows.reaches (h : arena.Shows names shown) (hreaches : arena.Reaches arena') :
    ∃ history more, arena'.Shows (names.after history) (shown ++ more) := by
  induction hreaches with
  | refl => exact ⟨[], [], by simpa using h⟩
  | tail _ hstep ih =>
      obtain ⟨history, more, hbefore⟩ := ih
      obtain ⟨request, others, hafter⟩ := hbefore.step hstep
      refine ⟨history ++ [request], more ++ others, ?_⟩
      rw [Naming.after, List.foldl_append, ← List.append_assoc]
      exact hafter

/-- The loop ends with what the lambda variable stands for, since it comes to smaller and smaller handles. -/
theorem Shows.walk (h : arena.Shows names shown) (hs : shown[s]? = some scope) (name : String) :
    arena.Walk name (some s) (names.resolve scope name) := by
  induction s using Nat.strong_induction_on generalizing scope with
  | _ s ih =>
      obtain ⟨stored, hstored, hrecords⟩ := h.exists_stored hs
      have hlookup := hrecords.namespaces name
      have hparent := hrecords.parent
      cases hd : names.defined? scope name with
      | some found =>
          rw [(Naming.Nearest.here hd).resolve]
          exact .found hstored (hlookup.trans hd)
      | none =>
          refine .outwards hstored (hlookup.trans hd) ?_
          cases hp : stored.parent with
          | none =>
              simp only [hp] at hparent
              obtain ⟨root, chain, keys⟩ := scope
              obtain rfl : keys = [] := hparent
              rw [Naming.resolve_of_undefined fun outer houter => Scope.around_start.mp houter ▸ hd]
              exact .notFound
          | some outer =>
              simp only [hp] at hparent
              obtain ⟨hlt, around, key, hshown, rfl⟩ := hparent
              rw [Naming.resolve_enter, hd]
              exact ih outer hlt hshown

theorem Walk.unique {at? : Option Nat} {outcome outcome' : Except ScopeError Namespace}
    (h : arena.Walk name at? outcome) (h' : arena.Walk name at? outcome') : outcome = outcome' := by
  induction h with
  | notFound =>
      cases h' with
      | notFound => rfl
  | found hs hfound =>
      cases h' with
      | found hs' hfound' =>
          obtain rfl := Option.some.inj (hs.symm.trans hs')
          rw [Option.some.inj (hfound.symm.trans hfound')]
      | outwards hs' hnone =>
          obtain rfl := Option.some.inj (hs.symm.trans hs')
          simp [hfound] at hnone
  | outwards hs hnone _ ih =>
      cases h' with
      | found hs' hfound =>
          obtain rfl := Option.some.inj (hs.symm.trans hs')
          simp [hfound] at hnone
      | outwards hs' _ hrest =>
          obtain rfl := Option.some.inj (hs.symm.trans hs')
          exact ih hrest

/-- From a scope another one is entered with a key: it is linked to the scope and has the same root. Whatever
happens later, the key leads to it again and nothing else leads to it. -/
structure Enters (arena : Arena) (s : Nat) (key : ScopeKey) (child : Nat) (grown : Arena) : Prop where
  answer : arena.enter s key = some (child, grown)
  linked : ∃ outer inner, grown.scopes[s]? = some outer ∧ grown.scopes[child]? = some inner ∧
    inner.parent = some s ∧ inner.root = outer.root
  again : ∀ later, grown.Reaches later → later.enter s key = some (child, later)
  apart : ∀ later s' key' later', grown.Reaches later → later.enter s' key' = some (child, later') →
    s' = s ∧ key' = key

/-- The loop ends, always with the nearest definition, and without one it ends with a failure. -/
structure Finds (arena : Arena) (names : Naming) (shown : List Scope) (s : Nat) (scope : Scope)
    (name : String) (outcome : Except ScopeError Namespace) : Prop where
  walk : arena.Walk name (some s) outcome
  unique : ∀ outcome', arena.Walk name (some s) outcome' → outcome' = outcome
  answer : names.resolve scope name = outcome
  nearest : ∀ found, outcome = .ok found → ∃ outer ∈ shown, names.Nearest scope name outer found
  missing : ∀ e, outcome = .error e →
    e = .notBound name ∧ ∀ outer : Scope, outer.Around scope → names.defined? outer name = none

/-- A lambda variable is bound in a scope where it is not bound yet, to an entity for which no variable has
been made up before. It is found from where it is the nearest definition, and nothing else changes. -/
structure Defines (arena : Arena) (history : List Naming.Request) (shown : List Scope) (s : Nat)
    (scope : Scope) (name entityType : String) : Prop where
  known : ∀ found, (({} : Naming).after history).defined? scope name = some found →
    arena.define s name entityType = some (.error (.alreadyBound name), arena)
  new : (({} : Naming).after history).defined? scope name = none → ∃ place grown names',
    (({} : Naming).after history).define scope name entityType = .ok (place, names') ∧
    grown.Shows names' shown ∧ arena.define s name entityType = some (.ok place, grown) ∧
    (∀ m ∈ ({} : Naming).made history, m.2 ≠ place.var) ∧
    ∀ t inner, shown[t]? = some inner → ∀ other outcome, arena.Walk other (some t) outcome →
      grown.Walk other (some t) outcome ∨
        other = name ∧ names'.Nearest inner name scope ⟨place, entityType⟩ ∧
          grown.Walk other (some t) (.ok ⟨place, entityType⟩)

theorem Shows.enters (h : arena.Shows names shown) (hs : shown[s]? = some scope) (key : ScopeKey) :
    ∃ child grown, arena.Enters s key child grown := by
  obtain ⟨child, grown, more, henter, hgrown, hchild⟩ := h.enter hs key
  have hs' : (shown ++ more)[s]? = some scope := by
    rw [List.getElem?_append_left (List.getElem?_eq_some_iff.mp hs).1]
    exact hs
  -- Later arenas show the two scopes at the same handles.
  have hlater : ∀ later, grown.Reaches later → ∃ names' shown', later.Shows names' shown' ∧
      shown'[s]? = some scope ∧ shown'[child]? = some (scope.enter key) := by
    intro later hreaches
    obtain ⟨history, others, hshows⟩ := hgrown.reaches hreaches
    refine ⟨_, _, hshows, ?_, ?_⟩
    · rw [List.getElem?_append_left (List.getElem?_eq_some_iff.mp hs').1]
      exact hs'
    · rw [List.getElem?_append_left (List.getElem?_eq_some_iff.mp hchild).1]
      exact hchild
  refine ⟨child, grown, henter, ?_, fun later hreaches => ?_, fun later s' key' later' hreaches hother => ?_⟩
  · obtain ⟨outer, houter, hrecords⟩ := hgrown.exists_stored hs'
    obtain ⟨inner, hinner, hrecords'⟩ := hgrown.exists_stored hchild
    refine ⟨outer, inner, houter, hinner, ?_, hrecords'.root.trans hrecords.root.symm⟩
    have hparent := hrecords'.parent
    cases hp : inner.parent with
    | none => simp [hp, Scope.enter] at hparent
    | some i =>
        simp only [hp] at hparent
        obtain ⟨-, around, key', hshown, heq⟩ := hparent
        rw [hgrown.eq_of_shown hshown ((enter_inj heq).1 ▸ hs')]
  · obtain ⟨names', shown', hshows, hscope, hinner⟩ := hlater later hreaches
    obtain ⟨stored, hstored, hrecords⟩ := hshows.exists_stored hscope
    simp only [Arena.enter, hstored, (hrecords.children key child).mpr hinner]
  · obtain ⟨names', shown', hshows, hscope, hinner⟩ := hlater later hreaches
    cases hstored : later.scopes[s']? with
    | none => simp [Arena.enter, hstored] at hother
    | some stored =>
        obtain ⟨scope', hs'', -⟩ := hshows.exists_shown hstored
        obtain ⟨child', grown', more', heq, hshows', hchild'⟩ := hshows.enter hs'' key'
        obtain ⟨rfl, rfl⟩ := Prod.mk.inj (Option.some.inj (heq.symm.trans hother))
        rw [List.getElem?_append_left (List.getElem?_eq_some_iff.mp hinner).1] at hchild'
        obtain ⟨rfl, rfl⟩ := enter_inj (Option.some.inj (hchild'.symm.trans hinner))
        exact ⟨hshows.eq_of_shown hs'' hscope, rfl⟩

theorem Shows.finds (h : arena.Shows names shown) (hs : shown[s]? = some scope) (name : String) :
    arena.Finds names shown s scope name (names.resolve scope name) := by
  have hspec := names.resolve_spec scope name
  refine ⟨h.walk hs name, fun outcome' hwalk => hwalk.unique (h.walk hs name), rfl, fun found hfound => ?_,
    fun e he => ?_⟩
  · rw [hfound] at hspec
    obtain ⟨outer, hnear⟩ := hspec
    exact ⟨outer, h.defined _ _ _ hnear.defined, hnear⟩
  · rw [he] at hspec
    exact hspec

theorem Shows.defines {history : List Naming.Request} (h : arena.Shows (({} : Naming).after history) shown)
    (hs : shown[s]? = some scope) (name entityType : String) :
    arena.Defines history shown s scope name entityType := by
  refine ⟨fun found hfound => ?_, fun hnone => ?_⟩
  · obtain ⟨-, -, heq⟩ | ⟨hnone, -⟩ := h.define hs name entityType
    · exact heq
    · simp [hfound] at hnone
  · obtain ⟨found, hfound, -⟩ | ⟨-, heq⟩ := h.define hs name entityType
    · simp [hfound] at hnone
    · have hgrown := h.bound hs hnone entityType
      refine ⟨_, _, (({} : Naming).after history).bound scope name entityType, ?_, hgrown, heq,
        fun m hm hvar => ?_, fun t inner ht other outcome hwalk => ?_⟩
      · simp only [Naming.define, hnone]
        rfl
      · obtain ⟨k, hk, hmk⟩ := (Naming.apart history).numbered m hm
        exact hk.ne (variableName_injective (hmk.symm.trans hvar))
      · obtain rfl := (h.walk ht other).unique hwalk
        have hwalk' := hgrown.walk ht other
        obtain hsame | ⟨rfl, hnear⟩ := Naming.resolve_bound _ scope name entityType inner other
        · exact Or.inl (hsame ▸ hwalk')
        · exact Or.inr ⟨rfl, hnear, hnear.resolve ▸ hwalk'⟩

/-- Whatever the operations were that led to an arena, its handles are the scopes of a history of the naming,
and entering scopes, looking lambda variables up and binding them obey the laws. -/
theorem reached_lawful (h : Reaches {} arena) : ∃ history shown,
    arena.Shows (({} : Naming).after history) shown ∧ ∀ s < arena.scopes.length, ∃ scope,
      shown[s]? = some scope ∧ (∀ key, ∃ child grown, arena.Enters s key child grown) ∧
      (∀ name, ∃ outcome, arena.Finds (({} : Naming).after history) shown s scope name outcome) ∧
      ∀ name entityType, arena.Defines history shown s scope name entityType := by
  obtain ⟨history, shown, hshows⟩ := shows_empty.reaches h
  rw [List.nil_append] at hshows
  refine ⟨history, shown, hshows, fun s hlt => ?_⟩
  have hs := List.getElem?_eq_getElem (hshows.length ▸ hlt : s < shown.length)
  exact ⟨_, hs, hshows.enters hs, fun name => ⟨_, hshows.finds hs name⟩, hshows.defines hs⟩

theorem reached_lawful_sample :
    let arena := ((({} : Arena).rootScope ⟨0⟩).2.opened 0 7 ⟨0⟩).bound 0 "it" "Post"
    Reaches {} arena ∧ (∃ grown, arena.Enters 0 7 1 grown) ∧ ∃ child grown, arena.Enters 1 7 child grown := by
  have hreaches : Reaches {} (((({} : Arena).rootScope ⟨0⟩).2.opened 0 7 ⟨0⟩).bound 0 "it" "Post") :=
    ((Relation.ReflTransGen.single (.rootScope ⟨0⟩)).tail
      (.enter (show Arena.enter _ 0 7 = some (1, _) from rfl))).tail
      (.define (show Arena.define _ 0 "it" "Post" = some (.ok ⟨0⟩, _) from rfl))
  obtain ⟨history, shown, -, hscopes⟩ := reached_lawful hreaches
  obtain ⟨-, -, houter, -⟩ := hscopes 0 (by decide)
  obtain ⟨-, -, hinner, -⟩ := hscopes 1 (by decide)
  obtain ⟨child, grown, henters⟩ := houter 7
  obtain rfl : child = 1 := (Prod.mk.inj (Option.some.inj henters.answer)).1.symm
  exact ⟨hreaches, ⟨grown, henters⟩, hinner 7⟩

end Arena
end EntityGraph
