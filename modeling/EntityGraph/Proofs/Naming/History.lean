import EntityGraph.Proofs.Naming.Trees
import Mathlib.Data.List.Nodup

/-!
# Histories of the names

Names are made up by requests that come one after the other, in any order: for a new entity, for a
variable of its own, for values and related entities, for scopes and for what lambda variables stand
for. All of them draw from one supply of numbers. Whatever the history, every variable is made up for
one purpose only, whatever is known was made up or linked on request, and a request that was answered
has the same answer ever after.
-/
namespace EntityGraph.Naming

variable {names names' names'' : Naming} {q : Place} {name : String}

/-- Later names that keep what was named, with the same lambda variables. -/
structure Keeps (names names' : Naming) : Prop where
  related : ∀ {q name r}, names.related? q name = some r → names'.related? q name = some r
  value : ∀ {q name v}, names.value? q name = some v → names'.value? q name = some v
  namespaces : names'.namespaces = names.namespaces

theorem Keeps.refl (names : Naming) : names.Keeps names := ⟨id, id, rfl⟩

theorem Keeps.trans (h : names.Keeps names') (h' : names'.Keeps names'') : names.Keeps names'' :=
  ⟨fun hr => h'.related (h.related hr), fun hv => h'.value (h.value hv),
    h'.namespaces.trans h.namespaces⟩

theorem Keeps.resolve (h : names.Keeps names') (scope : Scope) (name : String) :
    names'.resolve scope name = names.resolve scope name :=
  resolve_congr h.namespaces scope name

theorem Keeps.grows (h : names.Keeps names') : names.Grows names' :=
  ⟨h.related, h.value⟩

theorem keeps_relatedPlace (names : Naming) (q : Place) (name : String) :
    names.Keeps (names.relatedPlace q name).2 ∧
      (names.relatedPlace q name).2.related? q name = some (names.relatedPlace q name).1 := by
  unfold relatedPlace
  cases h : names.related? q name with
  | some r => exact ⟨.refl _, h⟩
  | none =>
      refine ⟨⟨fun {q' name' r} hr => ?_, id, rfl⟩, ?_⟩
      · have hlookup := lookup_append_singleton names.related (q, name) (q', name') ⟨names.next⟩
        exact hlookup.trans (by rw [show names.related.lookup (q', name') = some r from hr]; rfl)
      · have hlookup := lookup_append_singleton names.related (q, name) (q, name) ⟨names.next⟩
        exact hlookup.trans (by rw [show names.related.lookup (q, name) = none from h, if_pos rfl]; rfl)

theorem keeps_addValue {q : Place} {name v : String} {next : Nat} (h : names.value? q name = none) :
    names.Keeps { names with next, values := names.values ++ [((q, name), v)] } ∧
      ({ names with next, values := names.values ++ [((q, name), v)] } : Naming).value? q name =
        some v := by
  refine ⟨⟨id, fun {q' name' v'} hv => ?_, rfl⟩, ?_⟩
  · have hlookup := lookup_append_singleton names.values (q, name) (q', name') v
    exact hlookup.trans (by rw [show names.values.lookup (q', name') = some v' from hv]; rfl)
  · have hlookup := lookup_append_singleton names.values (q, name) (q, name) v
    exact hlookup.trans (by rw [show names.values.lookup (q, name) = none from h, if_pos rfl]; rfl)

theorem keeps_value (names : Naming) (q : Place) (name : String) :
    names.Keeps (names.value q name).2 ∧
      (names.value q name).2.value? q name = some (names.value q name).1 := by
  unfold value
  cases h : names.value? q name with
  | some v => exact ⟨.refl _, h⟩
  | none => exact keeps_addValue h

theorem keeps_link (names : Naming) (q : Place) (name v : String) :
    names.Keeps (names.link q name v).2 := by
  unfold link
  cases h : names.value? q name with
  | some v => exact .refl _
  | none => exact (keeps_addValue h).1

theorem value?_link (names : Naming) (q : Place) (name v : String) :
    (names.link q name v).2.value? q name = some (names.link q name v).1 := by
  unfold link
  cases h : names.value? q name with
  | some kept => exact h
  | none => exact (@keeps_addValue names q name v names.next h).2

/-- Later names that keep what was named, with new lambda variables only in scopes deeper than `depth`. -/
structure Extends (depth : Nat) (names names' : Naming) : Prop where
  grows : names.Grows names'
  resolve : ∀ {scope : Scope}, scope.keys.length ≤ depth → ∀ name,
    names'.resolve scope name = names.resolve scope name

theorem Keeps.extends (h : names.Keeps names') (depth : Nat) : Extends depth names names' :=
  ⟨h.grows, fun _ => h.resolve _⟩

theorem Extends.trans {depth : Nat} (h : Extends depth names names') (h' : Extends depth names' names'') :
    Extends depth names names'' where
  grows := h.grows.trans h'.grows
  resolve {scope} hscope name := by
    calc names''.resolve scope name = names'.resolve scope name := h'.resolve hscope name
      _ = names.resolve scope name := h.resolve hscope name

theorem Extends.mono {depth depth' : Nat} (h : Extends depth' names names') (hle : depth ≤ depth') :
    Extends depth names names' :=
  ⟨h.grows, fun hscope => h.resolve (hscope.trans hle)⟩

theorem extends_define {depth : Nat} {scope : Scope} {entityType : String} {place : Place}
    (hscope : depth < scope.keys.length) (h : names.define scope name entityType = .ok (place, names')) :
    Extends depth names names' := by
  unfold define at h
  split at h
  · simp at h
  · obtain ⟨-, rfl⟩ := Prod.mk.inj (Except.ok.inj h)
    refine ⟨⟨id, id⟩, fun {outer} houter other => ?_⟩
    refine resolve_bound_of_outside (fun hinside => ?_) name entityType other
    exact absurd (hinside.length_le.trans houter) (Nat.not_le.mpr hscope)

inductive Request where
  | newPlace
  | fresh
  | value (place : Place) (name : String)
  | link (place : Place) (name var : String)
  | related (place : Place) (name : String)
  | rootScope (root : Place)
  | scope (outer : Scope) (key : ScopeKey)
  | define (scope : Scope) (name entityType : String)
  deriving DecidableEq, Repr

/-- The entry for a value that a request asks for. -/
def Request.value? : Request → Option (Place × String)
  | .value q name => some (q, name)
  | .link q name _ => some (q, name)
  | _ => none

/-- The entry for a related entity that a request asks for. -/
def Request.related? : Request → Option (Place × String)
  | .related q name => some (q, name)
  | _ => none

inductive Answer where
  | place (place : Place)
  | var (name : String)
  | scope (scope : Scope)
  | failure (error : ScopeError)
  deriving DecidableEq, Repr

def answer (names : Naming) : Request → Answer × Naming
  | .newPlace => (.place names.newPlace.1, names.newPlace.2)
  | .fresh => (.var names.fresh.1, names.fresh.2)
  | .value q name => (.var (names.value q name).1, (names.value q name).2)
  | .link q name var => (.var (names.link q name var).1, (names.link q name var).2)
  | .related q name => (.place (names.relatedPlace q name).1, (names.relatedPlace q name).2)
  | .rootScope root => (.scope (names.rootScope root).1, (names.rootScope root).2)
  | .scope outer key => (.scope (outer.enter key), names)
  | .define scope name entityType =>
    match names.define scope name entityType with
    | .ok (place, after) => (.place place, after)
    | .error e => (.failure e, names)

/-- The names after all requests of a history. -/
def after (names : Naming) (history : List Request) : Naming :=
  history.foldl (fun names request => (names.answer request).2) names

/-- What a variable is made up for: for nothing else, for an entity, or for the value of an entity. -/
inductive Purpose where
  | alone
  | entity (place : Place)
  | value (place : Place) (name : String)
  deriving DecidableEq, Repr

/-- The variable that is made up to answer a request: that of every new entity, and of a value that has no
variable yet and is not linked to one. -/
def made? (names : Naming) : Request → Option (Purpose × String)
  | .newPlace => some (.entity names.newPlace.1, names.newPlace.1.var)
  | .fresh => some (.alone, names.fresh.1)
  | .value q name =>
    match names.value? q name with
    | some _ => none
    | none => some (.value q name, (names.value q name).1)
  | .related q name =>
    match names.related? q name with
    | some _ => none
    | none => some (.entity (names.relatedPlace q name).1, (names.relatedPlace q name).1.var)
  | .define scope name entityType =>
    match names.define scope name entityType with
    | .ok (place, _) => some (.entity place, place.var)
    | .error _ => none
  | .link .. | .rootScope _ | .scope .. => none

/-- All variables that are made up in a history, one after the other. -/
def made (names : Naming) : List Request → List (Purpose × String)
  | [] => []
  | request :: history => (names.made? request).toList ++ (names.answer request).2.made history

@[simp] theorem after_nil (names : Naming) : names.after [] = names := rfl

@[simp] theorem after_cons (names : Naming) (request : Request) (history : List Request) :
    names.after (request :: history) = (names.answer request).2.after history := rfl

theorem made_append (names : Naming) (earlier later : List Request) :
    names.made (earlier ++ later) = names.made earlier ++ (names.after earlier).made later := by
  induction earlier generalizing names with
  | nil => rfl
  | cons request rest ih => rw [List.cons_append, made, made, after_cons, ih, List.append_assoc]

/-- What a request can do to the names: the variable that is made up, the answer and the names after it. -/
inductive Step (names : Naming) : Request → Option (Purpose × String) → Answer → Naming → Prop
  | newPlace : Step names .newPlace (some (.entity ⟨names.next⟩, variableName names.next))
      (.place ⟨names.next⟩) { names with next := names.next + 1 }
  | fresh : Step names .fresh (some (.alone, variableName names.next))
      (.var (variableName names.next)) { names with next := names.next + 1 }
  | valueKnown {q : Place} {name v : String} (h : names.value? q name = some v) :
      Step names (.value q name) none (.var v) names
  | valueNew {q : Place} {name : String} (h : names.value? q name = none) :
      Step names (.value q name) (some (.value q name, variableName names.next))
        (.var (variableName names.next)) { names with
          next := names.next + 1
          values := names.values ++ [((q, name), variableName names.next)] }
  | linkKnown {q : Place} {name v var : String} (h : names.value? q name = some v) :
      Step names (.link q name var) none (.var v) names
  | linkNew {q : Place} {name var : String} (h : names.value? q name = none) :
      Step names (.link q name var) none (.var var)
        { names with values := names.values ++ [((q, name), var)] }
  | relatedKnown {q r : Place} {name : String} (h : names.related? q name = some r) :
      Step names (.related q name) none (.place r) names
  | relatedNew {q : Place} {name : String} (h : names.related? q name = none) :
      Step names (.related q name) (some (.entity ⟨names.next⟩, variableName names.next))
        (.place ⟨names.next⟩) { names with
          next := names.next + 1
          related := names.related ++ [((q, name), ⟨names.next⟩)] }
  | rootScope (root : Place) : Step names (.rootScope root) none (.scope ⟨root, names.chains, []⟩)
      { names with chains := names.chains + 1 }
  | scope (outer : Scope) (key : ScopeKey) : Step names (.scope outer key) none
      (.scope (outer.enter key)) names
  | defineKnown {scope : Scope} {name entityType : String} {found : Namespace}
      (h : names.defined? scope name = some found) :
      Step names (.define scope name entityType) none (.failure (.alreadyBound name)) names
  | defineNew {scope : Scope} {name entityType : String} (h : names.defined? scope name = none) :
      Step names (.define scope name entityType) (some (.entity ⟨names.next⟩, variableName names.next))
        (.place ⟨names.next⟩) (names.bound scope name entityType)

theorem step_answer (names : Naming) (request : Request) :
    names.Step request (names.made? request) (names.answer request).1 (names.answer request).2 := by
  cases request with
  | newPlace => exact .newPlace
  | fresh => exact .fresh
  | value q name =>
      simp only [made?, answer, value]
      cases h : names.value? q name with
      | some v => exact .valueKnown h
      | none => exact .valueNew h
  | link q name var =>
      simp only [made?, answer, link]
      cases h : names.value? q name with
      | some v => exact .linkKnown h
      | none => exact .linkNew h
  | related q name =>
      simp only [made?, answer, relatedPlace]
      cases h : names.related? q name with
      | some r => exact .relatedKnown h
      | none => exact .relatedNew h
  | rootScope root => exact .rootScope root
  | scope outer key => exact .scope outer key
  | define scope name entityType =>
      simp only [made?, answer, define]
      cases h : names.defined? scope name with
      | some found => exact .defineKnown h
      | none => exact .defineNew h

namespace Step

variable {request : Request} {m : Option (Purpose × String)} {a : Answer} {purpose : Purpose} {v : String}
  {r : Place} {scope : Scope} {found : Namespace}

theorem next (h : names.Step request m a names') :
    (m = none ∧ names'.next = names.next) ∨
      ∃ purpose, m = some (purpose, variableName names.next) ∧ names'.next = names.next + 1 := by
  cases h with
  | newPlace | fresh | valueNew | relatedNew | defineNew => exact Or.inr ⟨_, rfl, rfl⟩
  | valueKnown | linkKnown | linkNew | relatedKnown | rootScope | scope | defineKnown =>
      exact Or.inl ⟨rfl, rfl⟩

theorem grows (h : names.Step request m a names') : names.Grows names' := by
  cases h with
  | valueNew h => exact (keeps_addValue h).1.grows
  | linkNew h => exact (keeps_addValue h).1.grows
  | @relatedNew q name h =>
      have hkeeps := (keeps_relatedPlace names q name).1.grows
      rw [relatedPlace, h] at hkeeps
      exact hkeeps
  | valueKnown | linkKnown | relatedKnown | scope | defineKnown => exact .refl names
  | newPlace | fresh | rootScope | defineNew => exact ⟨id, id⟩

/-- The variable of a value was known, is made up for it, or is what the value is linked to. -/
theorem value? (h : names.Step request m a names') (hv : names'.value? q name = some v) :
    names.value? q name = some v ∨ m = some (.value q name, v) ∨
      (request = .link q name v ∧ names.value? q name = none) := by
  cases h with
  | valueNew h =>
      obtain hv | ⟨rfl, rfl, rfl, -⟩ := lookup_of_append hv
      · exact Or.inl hv
      · exact Or.inr (Or.inl rfl)
  | linkNew h =>
      obtain hv | ⟨rfl, rfl, rfl, -⟩ := lookup_of_append hv
      · exact Or.inl hv
      · exact Or.inr (Or.inr ⟨rfl, h⟩)
  | newPlace | fresh | valueKnown | linkKnown | relatedKnown | relatedNew | rootScope | scope | defineKnown
  | defineNew => exact Or.inl hv

theorem related? (h : names.Step request m a names') (hr : names'.related? q name = some r) :
    names.related? q name = some r ∨ m = some (.entity r, r.var) := by
  cases h with
  | relatedNew h =>
      obtain hr | ⟨rfl, rfl, rfl, -⟩ := lookup_of_append hr
      · exact Or.inl hr
      · exact Or.inr rfl
  | newPlace | fresh | valueKnown | valueNew | linkKnown | linkNew | relatedKnown | rootScope | scope
  | defineKnown | defineNew => exact Or.inl hr

/-- What a lambda variable stands for was known, or it is made up. -/
theorem defined? (h : names.Step request m a names') (hfound : names'.defined? scope name = some found) :
    names.defined? scope name = some found ∨ m = some (.entity found.place, found.place.var) := by
  cases h with
  | defineNew h =>
      obtain hfound | ⟨rfl, rfl, rfl, -⟩ := lookup_of_append hfound
      · exact Or.inl hfound
      · exact Or.inr rfl
  | newPlace | fresh | valueKnown | valueNew | linkKnown | linkNew | relatedKnown | relatedNew | rootScope
  | scope | defineKnown => exact Or.inl hfound

theorem place (h : names.Step request m (.place r) names') :
    (∃ q name, names.related? q name = some r) ∨ m = some (.entity r, r.var) := by
  cases h with
  | relatedKnown h => exact Or.inl ⟨_, _, h⟩
  | newPlace | relatedNew | defineNew => exact Or.inr rfl

theorem made (h : names.Step request (some (purpose, v)) a names') :
    match purpose with
    | .alone => request = .fresh ∧ a = .var v
    | .entity r => a = .place r ∧ v = r.var
    | .value q name => a = .var v ∧ names'.value? q name = some v := by
  cases h with
  | newPlace | relatedNew | defineNew => exact ⟨rfl, rfl⟩
  | fresh => exact ⟨rfl, rfl⟩
  | valueNew h => exact ⟨rfl, (keeps_addValue h).2⟩

theorem failure {e : ScopeError} (h : names.Step request m (.failure e) names') : names' = names := by
  cases h with
  | defineKnown => rfl

theorem opened (h : names.Step request m (.scope scope) names') : names'.next = names.next := by
  cases h with
  | rootScope | scope => rfl

end Step

theorem answer_value_known {request : Request} {v : String} (hrequest : request.value? = some (q, name))
    (h : names.value? q name = some v) : names.answer request = (.var v, names) := by
  cases request with
  | value q' name' =>
      obtain ⟨rfl, rfl⟩ := Prod.mk.inj (Option.some.inj hrequest)
      rw [answer, value, h]
  | link q' name' var =>
      obtain ⟨rfl, rfl⟩ := Prod.mk.inj (Option.some.inj hrequest)
      rw [answer, link, h]
  | newPlace | fresh | related | rootScope | scope | define => cases hrequest

theorem answer_related_known {request : Request} {r : Place} (hrequest : request.related? = some (q, name))
    (h : names.related? q name = some r) : names.answer request = (.place r, names) := by
  cases request with
  | related q' name' =>
      obtain ⟨rfl, rfl⟩ := Prod.mk.inj (Option.some.inj hrequest)
      rw [answer, relatedPlace, h]
  | newPlace | fresh | value | link | rootScope | scope | define => cases hrequest

theorem answer_value {request : Request} (names : Naming) (hrequest : request.value? = some (q, name)) :
    ∃ v, (names.answer request).1 = .var v ∧ (names.answer request).2.value? q name = some v := by
  cases request with
  | value q' name' =>
      obtain ⟨rfl, rfl⟩ := Prod.mk.inj (Option.some.inj hrequest)
      exact ⟨_, rfl, (keeps_value names _ _).2⟩
  | link q' name' var =>
      obtain ⟨rfl, rfl⟩ := Prod.mk.inj (Option.some.inj hrequest)
      exact ⟨_, rfl, value?_link names _ _ var⟩
  | newPlace | fresh | related | rootScope | scope | define => cases hrequest

theorem answer_related {request : Request} (names : Naming) (hrequest : request.related? = some (q, name)) :
    ∃ r, (names.answer request).1 = .place r ∧ (names.answer request).2.related? q name = some r := by
  cases request with
  | related q' name' =>
      obtain ⟨rfl, rfl⟩ := Prod.mk.inj (Option.some.inj hrequest)
      exact ⟨_, rfl, (keeps_relatedPlace names _ _).2⟩
  | newPlace | fresh | value | link | rootScope | scope | define => cases hrequest

theorem grows_after (names : Naming) (history : List Request) : names.Grows (names.after history) := by
  induction history generalizing names with
  | nil => exact .refl names
  | cons request rest ih => exact (names.step_answer request).grows.trans (ih _)

theorem made_numbers (names : Naming) (history : List Request) :
    (names.made history).map Prod.snd =
        (List.range' names.next (names.made history).length).map variableName ∧
      (names.after history).next = names.next + (names.made history).length := by
  induction history generalizing names with
  | nil => exact ⟨rfl, rfl⟩
  | cons request rest ih =>
      obtain ⟨hmade, hnext⟩ := ih (names.answer request).2
      rw [made, after_cons, hnext]
      obtain ⟨hm, hn⟩ | ⟨purpose, hm, hn⟩ := (names.step_answer request).next
      · rw [hm, hn]
        exact ⟨by rw [Option.toList_none, List.nil_append, hmade, hn], rfl⟩
      · rw [hm, hn, Option.toList_some, List.singleton_append, List.length_cons, List.map_cons, hmade, hn,
          List.range'_succ, List.map_cons]
        exact ⟨rfl, by omega⟩

def Answers (names : Naming) (history : List Request) (request : Request) (a : Answer) : Prop :=
  ∃ earlier later, history = earlier ++ request :: later ∧ ((names.after earlier).answer request).1 = a

def Linked (names : Naming) (history : List Request) (q : Place) (name v : String) : Prop :=
  ∃ earlier later, history = earlier ++ .link q name v :: later ∧
    (names.after earlier).value? q name = none

section Histories

variable {history : List Request} {request request' : Request} {a : Answer} {v : String} {r : Place}

theorem answers_cons : names.Answers (request :: history) request' a ↔
    (request' = request ∧ (names.answer request).1 = a) ∨
    (names.answer request).2.Answers history request' a := by
  constructor
  · rintro ⟨_ | ⟨first, earlier⟩, later, heq, hanswer⟩
    · obtain ⟨rfl, rfl⟩ := List.cons.inj heq
      exact Or.inl ⟨rfl, hanswer⟩
    · obtain ⟨rfl, rfl⟩ := List.cons.inj heq
      exact Or.inr ⟨earlier, later, rfl, hanswer⟩
  · rintro (⟨rfl, hanswer⟩ | ⟨earlier, later, rfl, hanswer⟩)
    · exact ⟨[], history, rfl, hanswer⟩
    · exact ⟨request :: earlier, later, rfl, hanswer⟩

theorem linked_cons : names.Linked (request :: history) q name v ↔
    (request = .link q name v ∧ names.value? q name = none) ∨
    (names.answer request).2.Linked history q name v := by
  constructor
  · rintro ⟨_ | ⟨first, earlier⟩, later, heq, hnone⟩
    · obtain ⟨rfl, rfl⟩ := List.cons.inj heq
      exact Or.inl ⟨rfl, hnone⟩
    · obtain ⟨rfl, rfl⟩ := List.cons.inj heq
      exact Or.inr ⟨earlier, later, rfl, hnone⟩
  · rintro (⟨rfl, hnone⟩ | ⟨earlier, later, rfl, hnone⟩)
    · exact ⟨[], history, rfl, hnone⟩
    · exact ⟨request :: earlier, later, rfl, hnone⟩

theorem mem_made_cons {m : Purpose × String} : m ∈ names.made (request :: history) ↔
    names.made? request = some m ∨ m ∈ (names.answer request).2.made history := by
  rw [made, List.mem_append, Option.mem_toList]

theorem value?_after : (names.after history).value? q name = some v ↔
    names.value? q name = some v ∨ (.value q name, v) ∈ names.made history ∨
      names.Linked history q name v := by
  induction history generalizing names with
  | nil => simp [made, Linked]
  | cons request rest ih =>
      rw [after_cons, ih, mem_made_cons, linked_cons]
      constructor
      · rintro (hv | hmade | hlinked)
        · obtain hv | hm | hlink := (names.step_answer request).value? hv
          · exact Or.inl hv
          · exact Or.inr (Or.inl (Or.inl hm))
          · exact Or.inr (Or.inr (Or.inl hlink))
        · exact Or.inr (Or.inl (Or.inr hmade))
        · exact Or.inr (Or.inr (Or.inr hlinked))
      · rintro (hv | (hm | hmade) | (⟨rfl, hnone⟩ | hlinked))
        · exact Or.inl ((names.step_answer request).grows.value hv)
        · have hstep := names.step_answer request
          rw [hm] at hstep
          exact Or.inl hstep.made.2
        · exact Or.inr (Or.inl hmade)
        · refine Or.inl ?_
          rw [answer, value?_link, link, hnone]
        · exact Or.inr (Or.inr hlinked)

theorem related?_after (h : (names.after history).related? q name = some r) :
    names.related? q name = some r ∨ (.entity r, r.var) ∈ names.made history := by
  induction history generalizing names with
  | nil => exact Or.inl h
  | cons request rest ih =>
      rw [mem_made_cons]
      obtain hr | hmade := ih h
      · exact ((names.step_answer request).related? hr).imp_right Or.inl
      · exact Or.inr (Or.inr hmade)

theorem defined?_after {scope : Scope} {found : Namespace}
    (h : (names.after history).defined? scope name = some found) :
    names.defined? scope name = some found ∨ (.entity found.place, found.place.var) ∈ names.made history := by
  induction history generalizing names with
  | nil => exact Or.inl h
  | cons request rest ih =>
      rw [mem_made_cons]
      obtain hfound | hmade := ih h
      · exact ((names.step_answer request).defined? hfound).imp_right Or.inl
      · exact Or.inr (Or.inr hmade)

/-- Every entity that is an answer was known before the history, or its variable is made up in it. -/
theorem Answers.place (h : names.Answers history request (.place r)) :
    (∃ q name, names.related? q name = some r) ∨ (.entity r, r.var) ∈ names.made history := by
  induction history generalizing names with
  | nil =>
      obtain ⟨earlier, later, heq, -⟩ := h
      simp at heq
  | cons first rest ih =>
      rw [mem_made_cons]
      obtain ⟨rfl, hanswer⟩ | hrest := answers_cons.mp h
      · have hstep := names.step_answer request
        rw [hanswer] at hstep
        exact hstep.place.imp_right Or.inl
      · obtain ⟨q, name, hr⟩ | hmade := ih hrest
        · exact ((names.step_answer first).related? hr).imp (fun hr => ⟨q, name, hr⟩) Or.inl
        · exact Or.inr (Or.inr hmade)

theorem Answers.fresh (h : names.Answers history .fresh (.var v)) : (.alone, v) ∈ names.made history := by
  obtain ⟨earlier, later, rfl, hanswer⟩ := h
  rw [made_append, List.mem_append, mem_made_cons]
  exact Or.inr (Or.inl (congrArg (fun v => some (Purpose.alone, v)) (Answer.var.inj hanswer)))

end Histories

/-- The variables of a history: each is made up for one purpose, with a number of its own, and whatever is
answered or known was made up, but for values that were linked to a variable. -/
structure Apart (history : List Request) : Prop where
  nodup : ((({} : Naming).made history).map Prod.snd).Nodup
  numbered : ∀ m ∈ ({} : Naming).made history, ∃ k < (({} : Naming).after history).next,
    m.2 = "?x" ++ toString k
  fresh : ∀ v, ({} : Naming).Answers history .fresh (.var v) → (.alone, v) ∈ ({} : Naming).made history
  place : ∀ request r, ({} : Naming).Answers history request (.place r) →
    (.entity r, r.var) ∈ ({} : Naming).made history
  related : ∀ q name r, (({} : Naming).after history).related? q name = some r →
    (.entity r, r.var) ∈ ({} : Naming).made history
  defined : ∀ scope name found, (({} : Naming).after history).defined? scope name = some found →
    (.entity found.place, found.place.var) ∈ ({} : Naming).made history
  value : ∀ q name v, (({} : Naming).after history).value? q name = some v ↔
    (.value q name, v) ∈ ({} : Naming).made history ∨ ({} : Naming).Linked history q name v

/-- What a request for an entry is answered with stays: later the entry is found, and whoever asks for it
again gets the same answer and changes nothing. -/
structure Settled (names : Naming) (request : Request) (later : List Request) : Prop where
  value : ∀ q name, request.value? = some (q, name) → ∃ v, (names.answer request).1 = .var v ∧
    (names.after (request :: later)).value? q name = some v ∧
    ∀ again, again.value? = some (q, name) →
      (names.after (request :: later)).answer again = (.var v, names.after (request :: later))
  related : ∀ q name, request.related? = some (q, name) → ∃ r, (names.answer request).1 = .place r ∧
    (names.after (request :: later)).related? q name = some r ∧
    ∀ again, again.related? = some (q, name) →
      (names.after (request :: later)).answer again = (.place r, names.after (request :: later))

/-- Nothing is made up for a request that finds an entry, for a lambda variable that is bound already, or
for a scope. -/
structure Frugal (names : Naming) (request : Request) : Prop where
  value : ∀ q name v, request.value? = some (q, name) → names.value? q name = some v →
    names.answer request = (.var v, names)
  related : ∀ q name r, request.related? = some (q, name) → names.related? q name = some r →
    names.answer request = (.place r, names)
  failure : ∀ e, (names.answer request).1 = .failure e → (names.answer request).2 = names
  scope : ∀ scope, (names.answer request).1 = .scope scope → (names.answer request).2.next = names.next

theorem apart (history : List Request) : Apart history := by
  obtain ⟨hmade, hnext⟩ := ({} : Naming).made_numbers history
  refine ⟨?_, fun m hm => ?_, fun v hv => hv.fresh, fun request r hr => ?_, fun q name r hr => ?_,
    fun scope name found hfound => ?_, fun q name v => ?_⟩
  · rw [hmade]
    exact List.Nodup.map (fun _ _ => variableName_injective) List.nodup_range'
  · have hvar := List.mem_map_of_mem (f := Prod.snd) hm
    rw [hmade] at hvar
    obtain ⟨k, hk, hkm⟩ := List.mem_map.mp hvar
    refine ⟨k, ?_, hkm.symm⟩
    rw [hnext]
    exact (List.mem_range'_1.mp hk).2
  · obtain ⟨q, name, hr⟩ | hmem := hr.place
    · simp [Naming.related?] at hr
    · exact hmem
  · obtain hr | hmem := related?_after hr
    · simp [Naming.related?] at hr
    · exact hmem
  · obtain hfound | hmem := defined?_after hfound
    · simp [Naming.defined?] at hfound
    · exact hmem
  · rw [value?_after]
    simp [Naming.value?]

theorem settled (names : Naming) (request : Request) (later : List Request) :
    names.Settled request later where
  value q name hrequest := by
    obtain ⟨v, hanswer, hv⟩ := names.answer_value hrequest
    have hlater := (grows_after (names.answer request).2 later).value hv
    exact ⟨v, hanswer, hlater, fun again hagain => answer_value_known hagain hlater⟩
  related q name hrequest := by
    obtain ⟨r, hanswer, hr⟩ := names.answer_related hrequest
    have hlater := (grows_after (names.answer request).2 later).related hr
    exact ⟨r, hanswer, hlater, fun again hagain => answer_related_known hagain hlater⟩

theorem frugal (names : Naming) (request : Request) : names.Frugal request where
  value q name v := answer_value_known
  related q name r := answer_related_known
  failure e he := by
    have hstep := names.step_answer request
    rw [he] at hstep
    exact hstep.failure
  scope scope hscope := by
    have hstep := names.step_answer request
    rw [hscope] at hstep
    exact hstep.opened

/-- Whatever is asked for, in whatever order: variables do not collide, answers do not change, and no
variable is made up without need. -/
theorem after_consistent (history : List Request) : Apart history ∧
    ∀ request, (∀ later, (({} : Naming).after history).Settled request later) ∧
      (({} : Naming).after history).Frugal request :=
  ⟨apart history, fun request => ⟨settled _ request, frugal _ request⟩⟩

/-- A foreign key is linked to the identifier of the related entity, and a lambda variable is bound twice. -/
example :
    let history := [.newPlace, .related ⟨0⟩ "Author", .value ⟨1⟩ "Id", .link ⟨0⟩ "AuthorId" "?x2",
      .value ⟨0⟩ "AuthorId", .rootScope ⟨0⟩, .define ⟨⟨0⟩, 0, []⟩ "b" "Book",
        .define ⟨⟨0⟩, 0, []⟩ "b" "Book", .fresh]
    ({} : Naming).made history = [(.entity ⟨0⟩, "?x0"), (.entity ⟨1⟩, "?x1"), (.value ⟨1⟩ "Id", "?x2"),
      (.entity ⟨3⟩, "?x3"), (.alone, "?x4")] ∧
        (({} : Naming).after history).value? ⟨0⟩ "AuthorId" = some "?x2" := by
  decide

end EntityGraph.Naming
