import EntityGraph.Proofs.Read.Conforms

/-!
# Records up to order

The records that are to be read of an entity differ at most in the order of their arrays. So two reads
that give what is to be read of an entity give the same content.
-/
namespace EntityGraph

open Sparql

mutual

/-- The same fields, where the records of an array may come in another order. -/
inductive Record.Alike : Record → Record → Prop
  | nil : Alike .nil .nil
  | value {name : String} {text : Option String} {rest rest' : Record} (h : Alike rest rest') :
      Alike (.value name text rest) (.value name text rest')
  | absent {name : String} {rest rest' : Record} (h : Alike rest rest') :
      Alike (.absent name rest) (.absent name rest')
  | single {name : String} {child child' rest rest' : Record} (hchild : Alike child child')
      (h : Alike rest rest') : Alike (.single name child rest) (.single name child' rest')
  | many {name : String} {children ordered children' : List Record} {rest rest' : Record}
      (hchildren : AlikeEach children ordered) (horder : ordered.Perm children') (h : Alike rest rest') :
      Alike (.many name children rest) (.many name children' rest')

inductive Record.AlikeEach : List Record → List Record → Prop
  | nil : AlikeEach [] []
  | cons {record record' : Record} {records records' : List Record} (h : Alike record record')
      (hs : AlikeEach records records') : AlikeEach (record :: records) (record' :: records')

end

variable {schema : Schema} {data : Dataset}

theorem ReadsEach.perm {T : EntityType} {expand : ExpandTree} {ns ms : List Term} {records : List Record}
    (h : ReadsEach schema data T expand ns records) (hperm : ns.Perm ms) :
    ∃ ordered, ordered.Perm records ∧ ReadsEach schema data T expand ms ordered := by
  induction hperm generalizing records with
  | nil =>
      cases h with
      | nil => exact ⟨[], .refl _, .nil⟩
  | cons n _ ih =>
      cases h with
      | cons hn hs =>
          obtain ⟨ordered, horder, hreads⟩ := ih hs
          exact ⟨_ :: ordered, horder.cons _, .cons hn hreads⟩
  | swap n m ns =>
      cases h with
      | cons hm hs =>
          cases hs with
          | cons hn hs => exact ⟨_, .swap _ _ _, .cons hn (.cons hm hs)⟩
  | trans _ _ ih ih' =>
      obtain ⟨ordered, horder, hreads⟩ := ih h
      obtain ⟨ordered', horder', hreads'⟩ := ih' hreads
      exact ⟨ordered', horder'.trans horder, hreads'⟩

section Inversion

variable {T : EntityType} {expand sub : ExpandTree} {n : Term} {p : Property} {ps : List Property}
  {record : Record} (h : ReadsFields schema data T expand n (p :: ps) record)

include h

theorem ReadsFields.of_value (he : p.isElementary = true) (hf : p.foreignKeyOf = none) :
    ∃ text rest, record = .value p.name text rest ∧
      (∀ s, text = some s ↔ ∃ a, data.Leads p.valueHop n a ∧ a.text = s) ∧
      ReadsFields schema data T expand n ps rest := by
  cases h with
  | value _ _ htext h => exact ⟨_, _, rfl, htext, h⟩
  | _ => simp_all

theorem ReadsFields.of_foreignKey {navigation : String} (he : p.isElementary = true)
    (hf : p.foreignKeyOf = some navigation) : ∃ text rest related hop t i, record = .value p.name text rest ∧
      related ∈ T.properties ∧ related.name = navigation ∧ schema.hop related = .ok hop ∧
      schema.targetType related = .ok t ∧ t.property? idName = some i ∧
      (∀ s, text = some s ↔ ∃ m a, data.Leads hop n m ∧ data.Leads i.valueHop m a ∧ a.text = s) ∧
      ReadsFields schema data T expand n ps rest := by
  cases h with
  | foreignKey _ hr hf' hh ht hi htext h =>
      exact ⟨_, _, _, _, _, _, rfl, hr, Option.some.inj (hf'.symm.trans hf), hh, ht, hi, htext, h⟩
  | _ => simp_all

theorem ReadsFields.of_unexpanded (he : p.isElementary = false) (hc : expand.child? p.name = none) :
    ReadsFields schema data T expand n ps record := by
  cases h with
  | unexpanded _ _ h => exact h
  | _ => simp_all

theorem ReadsFields.of_single (he : p.isElementary = false) (hsingle : p.isSingle = true)
    (hc : expand.child? p.name = some sub) : ∃ hop rest, schema.hop p = .ok hop ∧
      ReadsFields schema data T expand n ps rest ∧
      ((record = .absent p.name rest ∧ ∀ m, ¬ data.Leads hop n m) ∨
        ∃ t m child, record = .single p.name child rest ∧ schema.targetType p = .ok t ∧
          data.Leads hop n m ∧ ReadsFields schema data t sub m t.properties child) := by
  cases h with
  | absent _ _ _ hh hnone h => exact ⟨_, _, hh, h, Or.inl ⟨rfl, hnone⟩⟩
  | single _ _ hc' hh ht hm hchild h =>
      obtain rfl := Option.some.inj (hc.symm.trans hc')
      exact ⟨_, _, hh, h, Or.inr ⟨_, _, _, rfl, ht, hm, hchild⟩⟩
  | _ => simp_all

theorem ReadsFields.of_many (he : p.isElementary = false) (hmany : p.isSingle = false)
    (hc : expand.child? p.name = some sub) : ∃ hop t ms children rest, record = .many p.name children rest ∧
      schema.hop p = .ok hop ∧ schema.targetType p = .ok t ∧ ms.Nodup ∧
      (∀ m, m ∈ ms ↔ data.Leads hop n m) ∧ ReadsEach schema data t sub ms children ∧
      ReadsFields schema data T expand n ps rest := by
  cases h with
  | many _ _ hc' hh ht hnodup hms hchildren h =>
      obtain rfl := Option.some.inj (hc.symm.trans hc')
      exact ⟨_, _, _, _, _, rfl, hh, ht, hnodup, hms, hchildren, h⟩
  | _ => simp_all

end Inversion

theorem eq_of_forall_some_iff {text text' : Option String} {P : String → Prop}
    (h : ∀ s, text = some s ↔ P s) (h' : ∀ s, text' = some s ↔ P s) : text = text' := by
  refine Option.ext fun s => ?_
  rw [h, h']

/-- What is to be read of an entity is determined up to order. -/
theorem ReadsFields.alike (hs : schema.Accepted) (hdata : Conforms schema data) {T : EntityType}
    {expand : ExpandTree} {n : Term} {ps : List Property} {record record' : Record}
    (h : ReadsFields schema data T expand n ps record)
    (h' : ReadsFields schema data T expand n ps record') (hn : Member schema data T n)
    (hps : ∀ p ∈ ps, p ∈ T.properties) : record.Alike record' := by
  refine ReadsFields.rec
    (motive_1 := fun T expand n ps record _ => ∀ record', ReadsFields schema data T expand n ps record' →
      Member schema data T n → (∀ p ∈ ps, p ∈ T.properties) → record.Alike record')
    (motive_2 := fun T expand ns records _ => ∀ records', ReadsEach schema data T expand ns records' →
      (∀ n ∈ ns, Member schema data T n) → Record.AlikeEach records records')
    ?nil ?value ?foreignKey ?unexpanded ?absent ?single ?many ?none ?more h record' h' hn hps
  case nil =>
    intro T expand n record' h' _ _
    cases h' with
    | nil => exact .nil
  case value =>
    intro T expand n p ps text rest he hf htext _ ih record' h' hn hps
    obtain ⟨text', rest', rfl, htext', hrest'⟩ := h'.of_value he hf
    obtain rfl := eq_of_forall_some_iff htext htext'
    exact .value (ih _ hrest' hn (List.forall_mem_cons.mp hps).2)
  case foreignKey =>
    intro T t expand n p related i ps hop text rest he hr hf hh ht hi htext _ ih record' h' hn hps
    obtain ⟨text', rest', related', hop', t', i', rfl, hr', hname, hh', ht', hi', htext', hrest'⟩ :=
      h'.of_foreignKey he hf
    have hT := hn.declared hs
    obtain rfl : related' = related := by
      have hfound := hs.property? hT hr'
      rw [hname, hs.property? hT hr] at hfound
      exact (Option.some.inj hfound).symm
    obtain rfl := Except.ok.inj (hh.symm.trans hh')
    obtain rfl := Except.ok.inj (ht.symm.trans ht')
    obtain rfl := Option.some.inj (hi.symm.trans hi')
    obtain rfl := eq_of_forall_some_iff htext htext'
    exact .value (ih _ hrest' hn (List.forall_mem_cons.mp hps).2)
  case unexpanded =>
    intro T expand n p ps record he hc _ ih record' h' hn hps
    exact ih _ (h'.of_unexpanded he hc) hn (List.forall_mem_cons.mp hps).2
  case absent =>
    intro T expand sub n p ps hop rest he hsingle hc hh hnone _ ih record' h' hn hps
    obtain ⟨hop', rest', hh', hrest', ⟨rfl, -⟩ | ⟨t, m, child, -, -, hm, -⟩⟩ := h'.of_single he hsingle hc
    · exact .absent (ih _ hrest' hn (List.forall_mem_cons.mp hps).2)
    · obtain rfl := Except.ok.inj (hh.symm.trans hh')
      exact absurd hm (hnone m)
  case single =>
    intro T t expand sub n m p ps hop child rest he hsingle hc hh ht hm _ _ ihChild ih record' h' hn hps
    obtain ⟨hp, hps⟩ := List.forall_mem_cons.mp hps
    obtain ⟨hop', rest', hh', hrest', ⟨rfl, hnone⟩ | ⟨t', m', child', rfl, ht', hm', hchild'⟩⟩ :=
      h'.of_single he hsingle hc
    · obtain rfl := Except.ok.inj (hh.symm.trans hh')
      exact absurd hm (hnone m)
    · obtain rfl := Except.ok.inj (hh.symm.trans hh')
      obtain rfl := Except.ok.inj (ht.symm.trans ht')
      obtain rfl := hdata.single hn hp he hsingle hh hm hm'
      exact .single (ihChild _ hchild' (.related hn hp he ht hh hm) fun _ h => h) (ih _ hrest' hn hps)
  case many =>
    intro T t expand sub n p ps hop ms children rest he hmany hc hh ht hnodup hms _ _ ihChildren ih record'
      h' hn hps
    obtain ⟨hp, hps⟩ := List.forall_mem_cons.mp hps
    obtain ⟨hop', t', ms', children', rest', rfl, hh', ht', hnodup', hms', hchildren', hrest'⟩ :=
      h'.of_many he hmany hc
    obtain rfl := Except.ok.inj (hh.symm.trans hh')
    obtain rfl := Except.ok.inj (ht.symm.trans ht')
    have hperm : ms'.Perm ms := (List.perm_ext_iff_of_nodup hnodup' hnodup).mpr fun m => by rw [hms', hms]
    obtain ⟨ordered, horder, hordered⟩ := hchildren'.perm hperm
    exact .many (ihChildren _ hordered fun m hm => .related hn hp he ht hh ((hms m).mp hm)) horder
      (ih _ hrest' hn hps)
  case none =>
    intro T expand records' h' _
    cases h' with
    | nil => exact .nil
  case more =>
    intro T expand n ns record records _ _ ih ihs records' h' hns
    cases h' with
    | cons hn' hs' =>
        obtain ⟨hn, hns⟩ := List.forall_mem_cons.mp hns
        exact .cons (ih _ hn' hn fun _ h => h) (ihs _ hs' hns)

end EntityGraph
