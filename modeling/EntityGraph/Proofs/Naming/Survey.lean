import EntityGraph.Proofs.Naming.Scopes
import EntityGraph.Proofs.Pattern.Chart
import EntityGraph.Proofs.Schema.Accepted

/-!
# Names with their chart

While a query is compiled, names are made up one after the other. A survey is the names known at
some moment together with the chart of their variables and the scope keys in use. Making up a name
extends the chart; nothing that is known changes. The chart of a survey is proper: every edge of it
is an edge that the schema has for the type of the entity where it starts.
-/
namespace EntityGraph

open Sparql

/-- The edges that entities of a type may have: to values, and to entities of another type. -/
inductive EntityType.HasEdge (schema : Schema) (T : EntityType) : Hop → Option EntityType → Prop
  | value {p : Property} (hp : p ∈ T.properties) (he : p.isElementary = true)
      (hk : p.foreignKeyOf = none) : HasEdge schema T ⟨p.predicate, false⟩ none
  | related {p : Property} {t : EntityType} {h : Hop} (hp : p ∈ T.properties)
      (he : p.isElementary = false) (ht : schema.targetType p = .ok t)
      (hh : schema.hop p = .ok h) : HasEdge schema T h (some t)

structure Chart.Proper (schema : Schema) (chart : Chart) : Prop where
  ordered : chart.Ordered
  declared : ∀ {v T}, chart.kind v = some T → T ∈ schema.types
  edge : ∀ {v r h}, chart.link v = some (r, h) →
    ∃ T, chart.kind r = some T ∧ T.HasEdge schema h (chart.kind v)

def Chart.insert (chart : Chart) (k : Nat) (link : Option (String × Hop)) (kind : Option EntityType) :
    Chart where
  link v := if v = variableName k then link else chart.link v
  kind v := if v = variableName k then kind else chart.kind v

structure Survey where
  names : Naming
  chart : Chart
  keys : Set ScopeKey

namespace Survey

structure Sound (schema : Schema) (w : Survey) : Prop extends w.chart.Proper schema where
  linked : ∀ {v l}, w.chart.link v = some l → ∃ k < w.names.next, v = variableName k
  kinded : ∀ {v T}, w.chart.kind v = some T → ∃ k < w.names.next, v = variableName k
  related : ∀ {q name r}, w.names.related? q name = some r → ∃ T p t h,
    w.chart.kind q.var = some T ∧ T.property? name = some p ∧ p.isElementary = false ∧
    schema.targetType p = .ok t ∧ schema.hop p = .ok h ∧ w.chart.kind r.var = some t ∧
    w.chart.link r.var = some (q.var, h)
  value : ∀ {q name v}, w.names.value? q name = some v → ∃ T p,
    w.chart.kind q.var = some T ∧ T.property? name = some p ∧ p.isElementary = true ∧
    ((p.foreignKeyOf = none ∧ w.chart.link v = some (q.var, ⟨p.predicate, false⟩)) ∨
      ∃ navigation r, p.foreignKeyOf = some navigation ∧ w.names.related? q navigation = some r ∧
        w.names.value? r idName = some v)
  scopes : w.names.Scoped w.keys

/-- Later surveys know more. Scopes whose keys are in use are settled. -/
structure Le (w w' : Survey) : Prop where
  next : w.names.next ≤ w'.names.next
  link : ∀ k < w.names.next, w'.chart.link (variableName k) = w.chart.link (variableName k)
  kind : ∀ k < w.names.next, w'.chart.kind (variableName k) = w.chart.kind (variableName k)
  related : ∀ {q name r}, w.names.related? q name = some r → w'.names.related? q name = some r
  value : ∀ {q name v}, w.names.value? q name = some v → w'.names.value? q name = some v
  keys : w.keys ⊆ w'.keys
  resolve : ∀ scope : Scope, (∀ k ∈ scope.keys, k ∈ w.keys) → ∀ name,
    w'.names.resolve scope name = w.names.resolve scope name

instance : Preorder Survey where
  le := Le
  le_refl w := {
    next := Nat.le_refl _
    link := fun _ _ => rfl
    kind := fun _ _ => rfl
    related := fun h => h
    value := fun h => h
    keys := subset_rfl
    resolve := fun _ _ _ => rfl }
  le_trans _ _ _ h h' := {
    next := h.next.trans h'.next
    link := fun k hk => (h'.link k (lt_of_lt_of_le hk h.next)).trans (h.link k hk)
    kind := fun k hk => (h'.kind k (lt_of_lt_of_le hk h.next)).trans (h.kind k hk)
    related := fun hr => h'.related (h.related hr)
    value := fun hv => h'.value (h.value hv)
    keys := h.keys.trans h'.keys
    resolve := fun scope hscope name =>
      (h'.resolve scope (fun k hk => h.keys (hscope k hk)) name).trans (h.resolve scope hscope name) }

variable {schema : Schema} {w w' : Survey}

theorem Sound.kind_le (hw : w.Sound schema) (h : w ≤ w') {v : String} {T : EntityType}
    (hv : w.chart.kind v = some T) : w'.chart.kind v = some T := by
  obtain ⟨k, hk, rfl⟩ := hw.kinded hv
  rw [h.kind k hk, hv]

theorem Sound.link_le (hw : w.Sound schema) (h : w ≤ w') {v : String} {l : String × Hop}
    (hv : w.chart.link v = some l) : w'.chart.link v = some l := by
  obtain ⟨k, hk, rfl⟩ := hw.linked hv
  rw [h.link k hk, hv]

theorem Sound.number_lt (hw : w.Sound schema) {q : Place} {T : EntityType}
    (hq : w.chart.kind q.var = some T) : q.number < w.names.next := by
  obtain ⟨k, hk, heq⟩ := hw.kinded hq
  rwa [variableName_injective heq]

/-- One more variable; the entries stay as they are. -/
def insert (w : Survey) (link : Option (String × Hop)) (kind : Option EntityType) : Survey where
  names := { w.names with next := w.names.next + 1 }
  chart := w.chart.insert w.names.next link kind
  keys := w.keys

section Insert

variable {link : Option (String × Hop)} {kind : Option EntityType}

theorem insert_link (k : Nat) (hk : k < w.names.next) :
    (w.insert link kind).chart.link (variableName k) = w.chart.link (variableName k) :=
  if_neg fun h => absurd (variableName_injective h) hk.ne

theorem insert_kind (k : Nat) (hk : k < w.names.next) :
    (w.insert link kind).chart.kind (variableName k) = w.chart.kind (variableName k) :=
  if_neg fun h => absurd (variableName_injective h) hk.ne

@[simp] theorem insert_link_self :
    (w.insert link kind).chart.link (variableName w.names.next) = link := if_pos rfl

@[simp] theorem insert_kind_self :
    (w.insert link kind).chart.kind (variableName w.names.next) = kind := if_pos rfl

theorem le_insert (w : Survey) : w ≤ w.insert link kind where
  next := Nat.le_succ _
  link := insert_link
  kind := insert_kind
  related h := h
  value h := h
  keys := subset_rfl
  resolve scope _ name := Naming.resolve_congr (by rfl) scope name

theorem Sound.insert (hw : w.Sound schema) (hkind : ∀ T, kind = some T → T ∈ schema.types)
    (hlink : ∀ r h, link = some (r, h) → ∃ T, w.chart.kind r = some T ∧ T.HasEdge schema h kind) :
    (w.insert link kind).Sound schema := by
  have hle : w ≤ w.insert link kind := le_insert w
  have hkinds : ∀ {v T}, w.chart.kind v = some T → (w.insert link kind).chart.kind v = some T :=
    hw.kind_le hle
  have hlinks : ∀ {v l}, w.chart.link v = some l → (w.insert link kind).chart.link v = some l :=
    hw.link_le hle
  -- a variable of the longer chart is the new one or was there before
  have hcases : ∀ v, v = variableName w.names.next ∨
      ((w.insert link kind).chart.link v = w.chart.link v ∧
        (w.insert link kind).chart.kind v = w.chart.kind v) := by
    intro v
    by_cases h : v = variableName w.names.next
    · exact Or.inl h
    · exact Or.inr ⟨if_neg h, if_neg h⟩
  refine {
    ordered := ?_, declared := ?_, edge := ?_, linked := ?_, kinded := ?_, related := ?_, value := ?_,
    scopes := hw.scopes }
  · intro v r h hv
    obtain rfl | ⟨hl, -⟩ := hcases v
    · obtain ⟨T, hT, -⟩ := hlink r h (by simpa using hv)
      obtain ⟨k, hk, rfl⟩ := hw.kinded hT
      exact ⟨k, _, rfl, rfl, hk⟩
    · exact hw.ordered v r h (hl ▸ hv)
  · intro v T hv
    obtain rfl | ⟨-, hk⟩ := hcases v
    · exact hkind T (by simpa using hv)
    · exact hw.declared (hk ▸ hv)
  · intro v r h hv
    obtain rfl | ⟨hl, hk⟩ := hcases v
    · obtain ⟨T, hT, hedge⟩ := hlink r h (by simpa using hv)
      exact ⟨T, hkinds hT, by simpa using hedge⟩
    · obtain ⟨T, hT, hedge⟩ := hw.edge (hl ▸ hv)
      exact ⟨T, hkinds hT, by rwa [hk]⟩
  · intro v l hv
    obtain rfl | ⟨hl, -⟩ := hcases v
    · exact ⟨_, Nat.lt_succ_self _, rfl⟩
    · obtain ⟨k, hk, heq⟩ := hw.linked (hl ▸ hv)
      exact ⟨k, Nat.lt_succ_of_lt hk, heq⟩
  · intro v T hv
    obtain rfl | ⟨-, hk⟩ := hcases v
    · exact ⟨_, Nat.lt_succ_self _, rfl⟩
    · obtain ⟨k, hk, heq⟩ := hw.kinded (hk ▸ hv)
      exact ⟨k, Nat.lt_succ_of_lt hk, heq⟩
  · intro q name r hr
    obtain ⟨T, p, t, h, hT, hp, he, ht, hh, hk, hl⟩ := hw.related hr
    exact ⟨T, p, t, h, hkinds hT, hp, he, ht, hh, hkinds hk, hlinks hl⟩
  · intro q name v hv
    obtain ⟨T, p, hT, hp, he, hrest⟩ := hw.value hv
    exact ⟨T, p, hkinds hT, hp, he, hrest.imp (fun h => ⟨h.1, hlinks h.2⟩) id⟩

end Insert

def addRelated (w : Survey) (q : Place) (name : String) (r : Place) : Survey :=
  { w with names := { w.names with related := w.names.related ++ [((q, name), r)] } }

def addValue (w : Survey) (q : Place) (name v : String) : Survey :=
  { w with names := { w.names with values := w.names.values ++ [((q, name), v)] } }

theorem addRelated_related? (w : Survey) (q : Place) (name : String) (r : Place) (q' : Place)
    (name' : String) : (w.addRelated q name r).names.related? q' name' =
      (w.names.related? q' name').or (if (q', name') = (q, name) then some r else none) :=
  lookup_append_singleton w.names.related (q, name) (q', name') r

theorem addValue_value? (w : Survey) (q : Place) (name v : String) (q' : Place) (name' : String) :
    (w.addValue q name v).names.value? q' name' =
      (w.names.value? q' name').or (if (q', name') = (q, name) then some v else none) :=
  lookup_append_singleton w.names.values (q, name) (q', name') v

theorem le_addRelated (w : Survey) (q : Place) (name : String) (r : Place) :
    w ≤ w.addRelated q name r where
  next := Nat.le_refl _
  link _ _ := rfl
  kind _ _ := rfl
  related h := by rw [addRelated_related?, h, Option.some_or]
  value h := h
  keys := subset_rfl
  resolve scope _ name := Naming.resolve_congr (by rfl) scope name

theorem le_addValue (w : Survey) (q : Place) (name v : String) : w ≤ w.addValue q name v where
  next := Nat.le_refl _
  link _ _ := rfl
  kind _ _ := rfl
  related h := h
  value h := by rw [addValue_value?, h, Option.some_or]
  keys := subset_rfl
  resolve scope _ name := Naming.resolve_congr (by rfl) scope name

theorem Sound.addRelated (hw : w.Sound schema) {q : Place} {name : String} {r : Place}
    {T t : EntityType} {p : Property} {h : Hop} (hT : w.chart.kind q.var = some T)
    (hp : T.property? name = some p) (he : p.isElementary = false)
    (ht : schema.targetType p = .ok t) (hh : schema.hop p = .ok h)
    (hk : w.chart.kind r.var = some t) (hl : w.chart.link r.var = some (q.var, h)) :
    (w.addRelated q name r).Sound schema := by
  refine { hw with related := ?_, value := ?_ }
  · intro q' name' r' hr
    rw [addRelated_related?] at hr
    cases hold : w.names.related? q' name' with
    | some r'' =>
        obtain rfl : r'' = r' := by simpa [hold] using hr
        exact hw.related hold
    | none =>
        rw [hold, Option.none_or] at hr
        split at hr
        · next heq =>
            obtain ⟨rfl, rfl⟩ := Prod.mk.inj heq
            obtain rfl : r = r' := by simpa using hr
            exact ⟨T, p, t, h, hT, hp, he, ht, hh, hk, hl⟩
        · simp at hr
  · intro q' name' v hv
    obtain ⟨T', p', hT', hp', he', hrest⟩ := hw.value hv
    refine ⟨T', p', hT', hp', he', hrest.imp id ?_⟩
    rintro ⟨navigation, r', hf, hr', hid⟩
    exact ⟨navigation, r', hf, (le_addRelated w q name r).related hr', hid⟩

theorem Sound.addValue (hw : w.Sound schema) {q : Place} {name v : String} {T : EntityType}
    {p : Property} (hT : w.chart.kind q.var = some T) (hp : T.property? name = some p)
    (he : p.isElementary = true)
    (hv : (p.foreignKeyOf = none ∧ w.chart.link v = some (q.var, ⟨p.predicate, false⟩)) ∨
      ∃ navigation r, p.foreignKeyOf = some navigation ∧ w.names.related? q navigation = some r ∧
        w.names.value? r idName = some v) :
    (w.addValue q name v).Sound schema := by
  have hkeep : ∀ {q' name' v'}, w.names.value? q' name' = some v' →
      (w.addValue q name v).names.value? q' name' = some v' := (le_addValue w q name v).value
  refine { hw with value := ?_ }
  intro q' name' v' hv'
  rw [addValue_value?] at hv'
  cases hold : w.names.value? q' name' with
  | some v'' =>
      obtain rfl : v'' = v' := by simpa [hold] using hv'
      obtain ⟨T', p', hT', hp', he', hrest⟩ := hw.value hold
      refine ⟨T', p', hT', hp', he', hrest.imp id ?_⟩
      rintro ⟨navigation, r', hf, hr', hid⟩
      exact ⟨navigation, r', hf, hr', hkeep hid⟩
  | none =>
      rw [hold, Option.none_or] at hv'
      split at hv'
      · next heq =>
          obtain ⟨rfl, rfl⟩ := Prod.mk.inj heq
          obtain rfl : v = v' := by simpa using hv'
          refine ⟨T, p, hT, hp, he, hv.imp id ?_⟩
          rintro ⟨navigation, r', hf, hr', hid⟩
          exact ⟨navigation, r', hf, hr', hkeep hid⟩
      · simp at hv'

end Survey
end EntityGraph
