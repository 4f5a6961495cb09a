import EntityGraph.Proofs.Naming.Scopes
import EntityGraph.Proofs.Naming.Variable
import EntityGraph.Schema.Basic

/-!
# The trees of the names

The names form trees: the navigation properties of an entity lead to other entities, and each of these
has its values. A variable is in the tree of an entity if it stands for an entity that is reached from
there, or for a value of such an entity.

Every name is made up once, so that what hangs above a variable can be told from its number alone: any
label that is handed down the trees is a function of the number. A foreign key shares its variable with
the identifier of the related entity, and labels have to agree there. With the entity at the top of the
tree as the label, the trees of different entities have no variable in common.
-/
namespace EntityGraph

open Sparql

namespace Naming

variable {names names' : Naming} {l l' q r : Place} {v name : String}

/-- The entity `l`, and those that navigation properties lead to from there. -/
inductive Reaches (names : Naming) (l : Place) : Place → Prop
  | self : Reaches names l l
  | step {q r : Place} {name : String} (h : Reaches names l q) (hr : names.related? q name = some r) :
      Reaches names l r

/-- The variables of the tree at `l`. -/
def InTree (names : Naming) (l : Place) (v : String) : Prop :=
  ∃ q, names.Reaches l q ∧ (v = q.var ∨ ∃ name, names.value? q name = some v)

theorem Reaches.inTree (h : names.Reaches l q) : names.InTree l q.var := ⟨q, h, Or.inl rfl⟩

theorem Reaches.inTree_value (h : names.Reaches l q) (hv : names.value? q name = some v) :
    names.InTree l v := ⟨q, h, Or.inr ⟨name, hv⟩⟩

/-- What was named keeps its name. -/
structure Grows (names names' : Naming) : Prop where
  related : ∀ {q name r}, names.related? q name = some r → names'.related? q name = some r
  value : ∀ {q name v}, names.value? q name = some v → names'.value? q name = some v

theorem Grows.refl (names : Naming) : names.Grows names := ⟨id, id⟩

theorem Grows.trans {names'' : Naming} (h : names.Grows names') (h' : names'.Grows names'') :
    names.Grows names'' :=
  ⟨fun hr => h'.related (h.related hr), fun hv => h'.value (h.value hv)⟩

theorem Grows.reaches (hg : names.Grows names') (h : names.Reaches l q) : names'.Reaches l q := by
  induction h with
  | self => exact .self
  | step _ hr ih => exact .step ih (hg.related hr)

theorem Grows.inTree (hg : names.Grows names') (h : names.InTree l v) : names'.InTree l v := by
  obtain ⟨q, hq, hv | ⟨name, hv⟩⟩ := h
  · exact ⟨q, hg.reaches hq, Or.inl hv⟩
  · exact ⟨q, hg.reaches hq, Or.inr ⟨name, hg.value hv⟩⟩

/-- How a label is handed down: over a navigation property, and to a value. The variable of a foreign
key gets the same label either way. -/
structure Labelling (α : Type) where
  related : α → String → α
  value : α → String → α
  foreignKey : ∀ a navigation key, value (related a navigation) idName = value a key

/-- Numbers grow down the trees, and labels are handed down. -/
structure Labelled {α : Type} (scheme : Labelling α) (names : Naming) (label : Nat → α) : Prop where
  related : ∀ {q name r}, names.related? q name = some r →
    q.number < r.number ∧ r.number < names.next ∧ label r.number = scheme.related (label q.number) name
  value : ∀ {q name v}, names.value? q name = some v →
    ∃ k, v = variableName k ∧ q.number < k ∧ k < names.next ∧ label k = scheme.value (label q.number) name

section Labels

variable {α : Type} {scheme : Labelling α} {label label' : Nat → α}

theorem Labelled.relabel (h : names.Labelled scheme label) (hrelated : names'.related = names.related)
    (hvalues : names'.values = names.values) (hnext : names.next ≤ names'.next)
    (hlabel : ∀ k < names.next, label' k = label k) : names'.Labelled scheme label' where
  related {q name r} hr := by
    rw [related?, hrelated] at hr
    obtain ⟨hlt, hr, heq⟩ := h.related hr
    refine ⟨hlt, hr.trans_le hnext, ?_⟩
    rw [hlabel _ hr, hlabel _ (hlt.trans hr), heq]
  value {q name v} hv := by
    rw [value?, hvalues] at hv
    obtain ⟨k, hk, hlt, hnum, heq⟩ := h.value hv
    refine ⟨k, hk, hlt, hnum.trans_le hnext, ?_⟩
    rw [hlabel _ hnum, hlabel _ (hlt.trans hnum), heq]

theorem Labelled.insert (h : names.Labelled scheme label) (a : α) :
    ({ names with next := names.next + 1 } : Naming).Labelled scheme
      (Function.update label names.next a) :=
  h.relabel rfl rfl (Nat.le_succ _) fun _ hk => Function.update_of_ne hk.ne _ _

/-- The names with labels after a step: labels that were given stay. -/
structure Relabelled (scheme : Labelling α) (names : Naming) (label : Nat → α) (names' : Naming)
    (label' : Nat → α) : Prop where
  labelled : names'.Labelled scheme label'
  next : names.next ≤ names'.next
  same : ∀ k < names.next, label' k = label k

theorem Relabelled.refl (h : names.Labelled scheme label) : Relabelled scheme names label names label :=
  ⟨h, le_refl _, fun _ _ => rfl⟩

theorem Relabelled.trans {names'' : Naming} {label'' : Nat → α}
    (h : Relabelled scheme names label names' label') (h' : Relabelled scheme names' label' names'' label'') :
    Relabelled scheme names label names'' label'' where
  labelled := h'.labelled
  next := h.next.trans h'.next
  same k hk := by
    calc label'' k = label' k := h'.same k (hk.trans_le h.next)
      _ = label k := h.same k hk

theorem Labelled.relatedPlace (h : names.Labelled scheme label) (hq : q.number < names.next) (name : String) :
    ∃ label', Relabelled scheme names label (names.relatedPlace q name).2 label' := by
  unfold Naming.relatedPlace
  cases hold : names.related? q name with
  | some r => exact ⟨label, .refl h⟩
  | none =>
      have hnew := h.insert (scheme.related (label q.number) name)
      refine ⟨_, ⟨fun {q' name' r} hr => ?_, hnew.value⟩, Nat.le_succ _,
        fun _ hk => Function.update_of_ne hk.ne _ _⟩
      obtain hold | ⟨rfl, rfl, rfl, -⟩ := lookup_of_append (x := Place.mk names.next) hr
      · exact hnew.related hold
      · refine ⟨hq, Nat.lt_succ_self _, ?_⟩
        rw [Function.update_self, Function.update_of_ne hq.ne]

theorem Labelled.addValue (h : names.Labelled scheme label) {k : Nat} (hq : q.number < k)
    (hk : k < names.next) (hlabel : label k = scheme.value (label q.number) name) :
    ({ names with values := names.values ++ [((q, name), variableName k)] } : Naming).Labelled
    scheme label where
  related hr := h.related hr
  value {q' name' v} hv := by
    obtain hold | ⟨rfl, rfl, rfl, -⟩ := lookup_of_append hv
    · exact h.value hold
    · exact ⟨k, rfl, hq, hk, hlabel⟩

theorem Labelled.value_made (h : names.Labelled scheme label) (hq : q.number < names.next) (name : String) :
    ∃ label', Relabelled scheme names label (names.value q name).2 label' := by
  unfold Naming.value
  cases hold : names.value? q name with
  | some v => exact ⟨label, .refl h⟩
  | none =>
      have hnew := h.insert (scheme.value (label q.number) name)
      refine ⟨_, hnew.addValue (q := q) (k := names.next) hq (Nat.lt_succ_self _) ?_, Nat.le_succ _,
        fun _ hk => Function.update_of_ne hk.ne _ _⟩
      rw [Function.update_self, Function.update_of_ne hq.ne]

theorem Labelled.link (h : names.Labelled scheme label) {navigation key idVar : String}
    (hr : names.related? q navigation = some r) (hv : names.value? r idName = some idVar) :
    (names.link q key idVar).2.Labelled scheme label := by
  unfold Naming.link
  cases names.value? q key with
  | some kept => exact h
  | none =>
      obtain ⟨hlt, -, hlabel⟩ := h.related hr
      obtain ⟨k, rfl, hrk, hk, hvalue⟩ := h.value hv
      refine h.addValue (hlt.trans hrk) hk ?_
      rw [hvalue, hlabel, scheme.foreignKey]

theorem Labelled.reaches_lt (h : names.Labelled scheme label) (hl : l.number < names.next)
    (hq : names.Reaches l q) : q.number < names.next := by
  cases hq with
  | self => exact hl
  | step _ hr => exact (h.related hr).2.1

end Labels

/-- The label that stays the same down a tree. -/
def inherited : Labelling (Option Nat) where
  related a _ := a
  value a _ := a
  foreignKey _ _ _ := rfl

/-- The entities `roots` are the tops of trees, and the variables with the numbers `loose` are in no tree.
Lambda variables stand for tops of trees. -/
def Parted (names : Naming) (roots : Set Place) (loose : Set Nat) : Prop :=
  ∃ label, names.Labelled inherited label ∧
    (∀ l ∈ roots, l.number < names.next ∧ label l.number = some l.number) ∧
    (∀ k ∈ loose, k < names.next ∧ label k = none) ∧
    ∀ scope name found, names.defined? scope name = some found → found.place ∈ roots

variable {roots : Set Place} {loose : Set Nat}

theorem Parted.root_lt (h : names.Parted roots loose) (hl : l ∈ roots) : l.number < names.next := by
  obtain ⟨label, -, hroots, -⟩ := h
  exact (hroots l hl).1

theorem Parted.reaches_lt (h : names.Parted roots loose) (hl : l ∈ roots) (hq : names.Reaches l q) :
    q.number < names.next := by
  obtain ⟨label, hlabel, hroots, -⟩ := h
  exact hlabel.reaches_lt (hroots l hl).1 hq

theorem defined_of_resolve {scope : Scope} {found : Namespace} (h : names.resolve scope name = .ok found) :
    ∃ scope', names.defined? scope' name = some found := by
  have hfrom : ∀ keys, names.resolveFrom scope.root scope.chain name keys = some found →
      ∃ scope', names.defined? scope' name = some found := by
    intro keys hfound
    induction keys with
    | nil => exact ⟨_, hfound⟩
    | cons key outer ih =>
        unfold resolveFrom at hfound
        split at hfound
        · next there hthere =>
            obtain rfl := Option.some.inj hfound
            exact ⟨_, hthere⟩
        · exact ih hfound
  unfold resolve at h
  split at h
  · next there hthere =>
      obtain rfl := Except.ok.inj h
      exact hfrom _ hthere
  · simp at h

theorem Parted.resolve (h : names.Parted roots loose) {scope : Scope} {found : Namespace}
    (hfound : names.resolve scope name = .ok found) : found.place ∈ roots := by
  obtain ⟨label, -, -, -, hscopes⟩ := h
  obtain ⟨scope', hdefined⟩ := defined_of_resolve hfound
  exact hscopes _ _ _ hdefined

theorem Labelled.inTree {label : Nat → Option Nat} (h : names.Labelled inherited label)
    (hv : names.InTree l v) : ∃ k, v = variableName k ∧ label k = label l.number := by
  obtain ⟨q, hq, hv⟩ := hv
  have hplace : label q.number = label l.number := by
    clear hv
    induction hq with
    | self => rfl
    | step _ hr ih => exact (h.related hr).2.2.trans ih
  obtain rfl | ⟨name, hv⟩ := hv
  · exact ⟨q.number, rfl, hplace⟩
  · obtain ⟨k, rfl, -, -, hlabel⟩ := h.value hv
    exact ⟨k, rfl, hlabel.trans hplace⟩

theorem Parted.disjoint (h : names.Parted roots loose) (hl : l ∈ roots) (hl' : l' ∈ roots) (hne : l ≠ l')
    (hv : names.InTree l v) : ¬ names.InTree l' v := by
  intro hv'
  obtain ⟨label, hlabel, hroots, -⟩ := h
  obtain ⟨k, rfl, hk⟩ := hlabel.inTree hv
  obtain ⟨k', hkk, hk'⟩ := hlabel.inTree hv'
  obtain rfl := variableName_injective hkk
  rw [(hroots l hl).2] at hk
  rw [(hroots l' hl').2, hk] at hk'
  exact hne (congrArg Place.mk (Option.some.inj hk'))

theorem Parted.not_inTree (h : names.Parted roots loose) (hl : l ∈ roots) {k : Nat} (hk : k ∈ loose) :
    ¬ names.InTree l (variableName k) := by
  intro hv
  obtain ⟨label, hlabel, hroots, hloose, -⟩ := h
  obtain ⟨k', hkk, hk'⟩ := hlabel.inTree hv
  obtain rfl := variableName_injective hkk
  rw [(hroots l hl).2, (hloose k hk).2] at hk'
  simp at hk'

theorem Parted.relabelled {label : Nat → Option Nat} (hroots : ∀ l ∈ roots, l.number < names.next ∧
      label l.number = some l.number) (hloose : ∀ k ∈ loose, k < names.next ∧ label k = none)
    (hscopes : ∀ scope name found, names'.defined? scope name = some found → found.place ∈ roots)
    {label' : Nat → Option Nat} (h : Relabelled inherited names label names' label') :
    names'.Parted roots loose := by
  refine ⟨label', h.labelled, fun l hl => ?_, fun k hk => ?_, hscopes⟩
  · obtain ⟨hlt, hlabel⟩ := hroots l hl
    exact ⟨hlt.trans_le h.next, by rw [h.same _ hlt, hlabel]⟩
  · obtain ⟨hlt, hlabel⟩ := hloose k hk
    exact ⟨hlt.trans_le h.next, by rw [h.same _ hlt, hlabel]⟩

theorem Parted.fresh (h : names.Parted roots loose) :
    names.fresh.2.Parted roots (insert names.next loose) := by
  obtain ⟨label, hlabel, hroots, hloose, hscopes⟩ := h
  have hother : ∀ k < names.next, Function.update label names.next none k = label k :=
    fun _ hk => Function.update_of_ne hk.ne _ _
  refine ⟨_, hlabel.insert none, fun l hl => ?_, fun k hk => ?_, hscopes⟩
  · obtain ⟨hlt, hroot⟩ := hroots l hl
    exact ⟨Nat.lt_succ_of_lt hlt, by rw [hother _ hlt, hroot]⟩
  · rcases hk with rfl | hk
    · exact ⟨Nat.lt_succ_self _, Function.update_self ..⟩
    · obtain ⟨hlt, hnone⟩ := hloose k hk
      exact ⟨Nat.lt_succ_of_lt hlt, by rw [hother _ hlt, hnone]⟩

/-- A lambda variable stands for the top of a tree of its own. -/
theorem Parted.bound (h : names.Parted roots loose) (scope : Scope) (lambda entityType : String) :
    (names.bound scope lambda entityType).Parted (insert ⟨names.next⟩ roots) loose := by
  obtain ⟨label, hlabel, hroots, hloose, hscopes⟩ := h
  have hother : ∀ k < names.next, Function.update label names.next (some names.next) k = label k :=
    fun _ hk => Function.update_of_ne hk.ne _ _
  refine ⟨Function.update label names.next (some names.next), ?_, fun l hl => ?_, fun k hk => ?_,
    fun scope' name found hfound => ?_⟩
  · exact hlabel.relabel rfl rfl (Nat.le_succ _) hother
  · rcases hl with rfl | hl
    · exact ⟨Nat.lt_succ_self _, Function.update_self ..⟩
    · obtain ⟨hlt, hroot⟩ := hroots l hl
      exact ⟨Nat.lt_succ_of_lt hlt, by rw [hother _ hlt, hroot]⟩
  · obtain ⟨hlt, hnone⟩ := hloose k hk
    exact ⟨Nat.lt_succ_of_lt hlt, by rw [hother _ hlt, hnone]⟩
  · obtain hfound | ⟨-, -, rfl, -⟩ := lookup_of_append hfound
    · exact Or.inr (hscopes _ _ _ hfound)
    · exact Or.inl rfl

end Naming
end EntityGraph
