import EntityGraph.Proofs.Placement.Sources
import EntityGraph.Proofs.Read.Unfiltered

/-!
# Whose variable it is

What a compiled shape shows is anchored in the names: every value has a variable of its own or, if it
is a foreign key, the variable of the identifier that it copies, and every expanded navigation property
leads to an entity with an identifier of its own. A variable is the own one of one value only.
-/
namespace EntityGraph

open Sparql

variable {schema : Schema} {T : EntityType} {expand : ExpandTree} {names : Naming}
  {source : Nat → Option (Place × String)} {shape : Shape} {q q' r : Place} {name name' v : String}

def Naming.Owns (names : Naming) (source : Nat → Option (Place × String)) (q : Place)
    (name v : String) : Prop :=
  names.value? q name = some v ∧ ∃ k, v = variableName k ∧ source k = some (q, name)

theorem Naming.Owns.unique (h : names.Owns source q name v) (h' : names.Owns source q' name' v) :
    q = q' ∧ name = name' := by
  obtain ⟨-, k, rfl, hk⟩ := h
  obtain ⟨-, k', hkk, hk'⟩ := h'
  obtain rfl := variableName_injective hkk
  exact Prod.mk.inj (Option.some.inj (hk.symm.trans hk'))

theorem Naming.Sourced.related_unique (h : names.Sourced source) (hr : names.related? q name = some r)
    (hr' : names.related? q' name' = some r) : q = q' ∧ name = name' :=
  Prod.mk.inj (Option.some.inj ((h.related hr).2.symm.trans (h.related hr').2))

theorem Naming.Sourced.not_related (h : names.Sourced source) (hq : source q.number = none) :
    names.related? q' name ≠ some q := by
  intro hr
  have hsome := (h.related hr).2
  rw [hq] at hsome
  simp at hsome

/-- Values have variables of their own, foreign keys those of the identifiers that they copy. -/
def Shape.Anchored (names : Naming) (source : Nat → Option (Place × String)) : Shape → Place → Prop
  | nil, _ => True
  | value p rest, q =>
    (∃ v, names.value? q p.name = some v ∧ ((p.foreignKeyOf = none ∧ names.Owns source q p.name v) ∨
      ∃ navigation r, p.foreignKeyOf = some navigation ∧ names.related? q navigation = some r ∧
        names.Owns source r idName v)) ∧
    rest.Anchored names source q
  | navigation p _ below rest, q =>
    (∃ r, names.related? q p.name = some r ∧ (∃ v, names.Owns source r idName v) ∧
      below.Anchored names source r) ∧
    rest.Anchored names source q

theorem Survey.Sound.owns {w : Survey} (hs : schema.Accepted) (hids : schema.OwnIds) (hw : w.Sound schema)
    (hsource : w.names.Sourced source) (hT : w.chart.kind q.var = some T) {p : Property}
    (hp : p ∈ T.properties) (hf : p.foreignKeyOf = none) (hv : w.names.value? q p.name = some v) :
    w.names.Owns source q p.name v := by
  obtain ⟨k, -, rfl, hk | ⟨navigation, r, hr, hid⟩⟩ := hsource.value hv
  · exact ⟨hv, k, rfl, hk⟩
  · -- the identifier of the related entity hangs there, and not at this entity
    exfalso
    obtain ⟨T', p', t, h, -, -, -, -, -, ht, hl⟩ := hw.related hr
    have hts := hw.declared ht
    obtain ⟨i, hi, hname, hifound, -⟩ := hs.id hts
    rw [← hname] at hid
    obtain ⟨-, hlink⟩ | ⟨navigation, -, hk, -⟩ := hw.value_of hs hT hp hv
    · obtain ⟨-, hlink'⟩ | ⟨navigation, -, hk, -⟩ := hw.value_of hs ht hi hid
      · have hsame : q.var = r.var := congrArg Prod.fst (Option.some.inj (hlink.symm.trans hlink'))
        obtain ⟨i, j, hi, hj, hlt⟩ := hw.ordered _ _ _ hl
        rw [hsame, hj] at hi
        exact absurd (variableName_injective hi) hlt.ne'
      · simp [hids t hts i hifound] at hk
    · simp [hf] at hk

theorem Survey.Sound.owns_id {w : Survey} (hs : schema.Accepted) (hids : schema.OwnIds) (hw : w.Sound schema)
    (hsource : w.names.Sourced source) (hT : w.chart.kind q.var = some T)
    (hv : w.names.value? q idName = some v) : w.names.Owns source q idName v := by
  have hTs := hw.declared hT
  obtain ⟨i, hi, hname, hifound, -⟩ := hs.id hTs
  rw [← hname] at hv ⊢
  exact hw.owns hs hids hsource hT hi (hids T hTs i hifound) hv

namespace Shape

theorem Shows.anchored {w : Survey} {ps : List Property} (hs : schema.Accepted) (hids : schema.OwnIds)
    (hw : w.Sound schema) (hsource : w.names.Sourced source) (h : Shows schema expand ps shape)
    (hps : ∀ p ∈ ps, p ∈ T.properties) (hT : w.chart.kind q.var = some T) {B : Body}
    (ht : shape.Tracked w.names q B) : shape.Anchored w.names source q := by
  induction h generalizing T q B with
  | nil => trivial
  | @value expand p ps rest he _ ih =>
      obtain ⟨hp, hps⟩ := List.forall_mem_cons.mp hps
      obtain ⟨⟨v, hv, -, hkey⟩, hrest⟩ := ht
      refine ⟨⟨v, hv, ?_⟩, ih hps hT hrest⟩
      obtain ⟨hf, -⟩ | ⟨navigation, r, hf, hr, hid, -⟩ := hkey
      · exact Or.inl ⟨hf, hw.owns hs hids hsource hT hp hf hv⟩
      · obtain ⟨-, -, t, -, -, -, -, -, -, hkind, -⟩ := hw.related hr
        exact Or.inr ⟨navigation, r, hf, hr, hw.owns_id hs hids hsource hkind hid⟩
  | skip _ _ _ ih => exact ih (List.forall_mem_cons.mp hps).2 hT ht
  | @navigation expand sub p t ps below rest he hc htarget hbelow _ ihBelow ih =>
      obtain ⟨hp, hps⟩ := List.forall_mem_cons.mp hps
      obtain ⟨⟨r, inner, hr, htracked, -⟩, hrest⟩ := ht
      obtain ⟨-, t', h, ht', -, hkind, -⟩ := hw.related_of hs hT hp hr
      obtain rfl := Except.ok.inj (htarget.symm.trans ht')
      obtain ⟨v, hv, -⟩ := hbelow.tracked_id hs (hw.declared hkind) htracked
      exact ⟨⟨r, hr, ⟨v, hw.owns_id hs hids hsource hkind hv⟩, ihBelow (fun _ => id) hkind htracked⟩,
        ih hps hT hrest⟩

end Shape

theorem Reader.sourced_start : Reader.startingPosition.2.Sourced fun _ => none :=
  ⟨fun {q name r} hr => absurd (show (none : Option Place) = some r from hr) (by simp),
    fun {q name v} hv => absurd (show (none : Option String) = some v from hv) (by simp)⟩

/-- What an expanded read is compiled to is anchored in the names, at an entity that no navigation property
leads to. -/
theorem ExpandTree.compile_anchored {pattern : Pattern} (hs : schema.Accepted) (hids : schema.OwnIds)
    (hT : T ∈ schema.types)
    (hc : expand.compile schema Rule.builtin T Reader.startingPosition.1 Reader.startingPosition.2 =
      .ok (pattern, names)) :
    ∃ shape source, Shape.ofExpand schema T expand = .ok shape ∧ names.Sourced source ∧
      source Reader.startingPosition.1.place.number = none ∧
      (∃ v, names.Owns source Reader.startingPosition.1.place idName v) ∧
      shape.Anchored names source Reader.startingPosition.1.place := by
  obtain ⟨w, shape, rfl, hle, hw, -, -, hshape, htracked, -⟩ := compile_start hs hids hT hc
  obtain ⟨-, forest, -, -, -, hnames, -⟩ := compile_ok hc
  obtain ⟨source, hsource⟩ := forest.place_sourced Reader.startingPosition.1 Reader.sourced_start
  have hsourced := hsource.sourced
  rw [← hnames] at hsourced
  have hkind : w.chart.kind Reader.startingPosition.1.place.var = some T :=
    (hle.kind 0 Nat.zero_lt_one).trans (Survey.start_kind T)
  have hshows := Shape.shows_ofExpand hs hT hshape
  obtain ⟨v, hv, -⟩ := hshows.tracked_id hs hT htracked
  exact ⟨shape, source, hshape, hsourced, hsource.same 0 Nat.zero_lt_one,
    ⟨v, hw.owns_id hs hids hsourced hkind hv⟩,
    hshows.anchored hs hids hw hsourced (fun _ => id) hkind htracked⟩

end EntityGraph
