import EntityGraph.Filter.Compile
import EntityGraph.Proofs.Placement.Mentions
import EntityGraph.Proofs.Placement.Suits

/-!
# Forests of conditions

A condition asks for values that are reached over single-valued navigation properties, from the
entity it is about or from what a lambda variable stands for. Forests of such branches can be merged,
and they suit the type of the entity wherever the lambda variables are bound.
-/
namespace EntityGraph

/-- The lambda variables are bound in a scope, now and later. -/
def Survey.Binds (w : Survey) (scope : Scope)
    (lambda : String → Option (Place × EntityType)) : Prop :=
  ∀ name q t, lambda name = some (q, t) → ∀ w', w ≤ w' →
    w'.names.resolve scope name = .ok ⟨q, t.name⟩ ∧ w'.chart.kind q.var = some t

theorem Survey.Binds.mono {w : Survey} {scope : Scope} {lambda lambda' : String → Option (Place × EntityType)}
    (h : w.Binds scope lambda) (hle : ∀ name found, lambda' name = some found → lambda name = some found) :
    w.Binds scope lambda' :=
  fun name q t hlambda => h name q t (hle name (q, t) hlambda)

namespace Forest

theorem ofPath_append (path more : List Branch) (last : Forest) :
    ofPath (path ++ more) last = ofPath path (ofPath more last) :=
  List.foldr_append

/-- A condition on forests in a context is kept by merging, if it is a condition on the branches
one by one, and two forests below one branch may be replaced by any that satisfies what both do. -/
theorem merge_closed {C : Type} {Q : Forest → C → Prop} (hnil : ∀ c, Q nil c)
    (hcons : ∀ {branch below rest c},
      Q (cons branch below rest) c ↔ Q (cons branch below nil) c ∧ Q rest c)
    (hcombine : ∀ {branch below below' merged c}, Q (cons branch below nil) c →
      Q (cons branch below' nil) c → (∀ c', Q below c' → Q below' c' → Q merged c') →
        (below = nil → below' = nil → merged = nil) → Q (cons branch merged nil) c)
    {f g : Forest} {c : C} (hf : Q f c) (hg : Q g c) : Q (f.merge g) c := by
  induction g generalizing f c with
  | nil => exact hf
  | cons branch below rest ihBelow ih =>
      obtain ⟨hhead, hrest⟩ := hcons.mp hg
      refine ih ?_ hrest
      clear ih hg hrest
      induction f with
      | nil =>
          refine hcombine hhead hhead (fun c' h _ => ihBelow (hnil c') h) ?_
          rintro rfl -
          rfl
      | cons b there rest _ ih =>
          obtain ⟨hfirst, hrest⟩ := hcons.mp hf
          unfold update
          split
          · next heq =>
              subst heq
              refine hcons.mpr ⟨hcombine hfirst hhead (fun c' h h' => ihBelow h h') ?_, hrest⟩
              rintro rfl rfl
              rfl
          · exact hcons.mpr ⟨hfirst, ih hrest⟩

variable {schema : Schema} {T : EntityType} {f g : Forest}

theorem Suits.cons_iff {L : Outlook} {w : Survey} {position : Position} {branch : Branch}
    {below rest : Forest} : (cons branch below rest).Suits schema L w position T ↔
      (cons branch below nil).Suits schema L w position T ∧ rest.Suits schema L w position T := by
  cases branch <;> simp only [Suits, and_true]

theorem Suits.merge (hs : schema.Accepted) (hT : T ∈ schema.types) {L : Outlook} {w : Survey}
    {position : Position} (hf : f.Suits schema L w position T) (hg : g.Suits schema L w position T) :
    (f.merge g).Suits schema L w position T := by
  refine merge_closed (C := Survey × Position × EntityType)
    (Q := fun f c => c.2.2 ∈ schema.types → f.Suits schema L c.1 c.2.1 c.2.2) (fun c _ => trivial)
    ?_ ?_ (c := (w, position, T)) (fun _ => hf) (fun _ => hg) hT
  · rintro branch below rest ⟨w, position, T⟩
    exact (forall_congr' fun _ => Suits.cons_iff).trans forall_and
  · rintro branch below below' merged ⟨w, position, T⟩ h h' hmerged hnil hT
    replace h := h hT
    replace h' := h' hT
    cases branch with
    | property b =>
        obtain ⟨⟨p, hp, hreads, hvalue, hrelated⟩, -⟩ := h
        obtain ⟨⟨p', hp', hreads', hvalue', hrelated'⟩, -⟩ := h'
        obtain rfl := hs.reads_unique hT hp hp' hreads hreads'
        refine ⟨⟨p, hp, hreads, fun he => hnil (hvalue he) (hvalue' he), fun he t ht w' hle r hr => ?_⟩,
          trivial⟩
        obtain ⟨t', ht', htarget⟩ := hs.targetType hT hp he
        obtain rfl : t = t' := Except.ok.inj (ht.symm.trans htarget)
        exact hmerged (w', _, t) (fun _ => hrelated he t ht w' hle r hr)
          (fun _ => hrelated' he t ht w' hle r hr) ht'
    | lambda name type =>
        obtain ⟨⟨found, t, htype, ht, hplace, hlater⟩, -⟩ := h
        obtain ⟨⟨found', t', -, -, -, hlater'⟩, -⟩ := h'
        refine ⟨⟨found, t, htype, ht, hplace, fun w' hle => ?_⟩, trivial⟩
        obtain ⟨hresolve, hkind, hbelow⟩ := hlater w' hle
        obtain ⟨hresolve', hkind', hbelow'⟩ := hlater' w' hle
        obtain rfl : found = found' := Except.ok.inj (hresolve.symm.trans hresolve')
        obtain rfl : t = t' := Option.some.inj (hkind.symm.trans hkind')
        exact ⟨hresolve, hkind, hmerged (w', _, t) (fun _ => hbelow) (fun _ => hbelow') ht⟩
    | any a =>
        obtain ⟨⟨found, t, ht, hlink, hlater⟩, -⟩ := h
        obtain ⟨⟨found', t', -, -, hlater'⟩, -⟩ := h'
        refine ⟨⟨found, t, ht, hlink, fun w' hle => ?_⟩, trivial⟩
        obtain ⟨hresolve, hkind, hbelow⟩ := hlater w' hle
        obtain ⟨hresolve', hkind', hbelow'⟩ := hlater' w' hle
        obtain rfl : found = found' := Except.ok.inj (hresolve.symm.trans hresolve')
        obtain rfl : t = t' := Option.some.inj (hkind.symm.trans hkind')
        exact ⟨hresolve, hkind, hmerged (w', _, t) (fun _ => hbelow) (fun _ => hbelow') ht⟩

/-- Values that are reached over single-valued navigation properties of a type. -/
def Follows (schema : Schema) : Forest → EntityType → Prop
  | nil, _ => True
  | cons (.property b) below rest, T =>
    (∃ p ∈ T.properties, b.Reads schema T p ∧ (p.isElementary = true → below = nil) ∧
      (p.isElementary = false → p.isSingle = true ∧
        ∀ t, schema.targetType p = .ok t → below.Follows schema t)) ∧
    rest.Follows schema T
  | cons _ _ _, _ => False

def Asks (schema : Schema) (lambda : String → Option (Place × EntityType)) (T : EntityType) :
    Forest → Prop
  | nil => True
  | cons (.lambda name type) below rest =>
    (∃ q t, lambda name = some (q, t) ∧ t ∈ schema.types ∧ type = t.name ∧ below.Follows schema t) ∧
      rest.Asks schema lambda T
  | cons branch below rest => (cons branch below nil).Follows schema T ∧ rest.Asks schema lambda T

theorem Follows.cons_iff {branch : Branch} {below rest : Forest} :
    (cons branch below rest).Follows schema T ↔
      (cons branch below nil).Follows schema T ∧ rest.Follows schema T := by
  cases branch <;> simp [Follows]

theorem Follows.combine (hs : schema.Accepted) (hT : T ∈ schema.types) {branch : Branch}
    {below below' merged : Forest} (h : (cons branch below nil).Follows schema T)
    (h' : (cons branch below' nil).Follows schema T)
    (hmerged : ∀ t ∈ schema.types, below.Follows schema t → below'.Follows schema t →
      merged.Follows schema t)
    (hnil : below = nil → below' = nil → merged = nil) :
    (cons branch merged nil).Follows schema T := by
  cases branch with
  | property b =>
      obtain ⟨⟨p, hp, hreads, hvalue, hrelated⟩, -⟩ := h
      obtain ⟨⟨p', hp', hreads', hvalue', hrelated'⟩, -⟩ := h'
      obtain rfl := hs.reads_unique hT hp hp' hreads hreads'
      refine ⟨⟨p, hp, hreads, fun he => hnil (hvalue he) (hvalue' he), fun he => ?_⟩, trivial⟩
      obtain ⟨hsingle, hbelow⟩ := hrelated he
      refine ⟨hsingle, fun t ht => ?_⟩
      obtain ⟨t', ht', htarget⟩ := hs.targetType hT hp he
      obtain rfl : t = t' := Except.ok.inj (ht.symm.trans htarget)
      exact hmerged t ht' (hbelow t ht) ((hrelated' he).2 t ht)
  | lambda name type => exact h.elim
  | any a => exact h.elim

theorem Follows.suits (h : f.Follows schema T) (L : Outlook) (w : Survey) (position : Position) :
    f.Suits schema L w position T := by
  induction f generalizing T w position with
  | nil => trivial
  | cons branch below rest ihBelow ih =>
      cases branch with
      | property b =>
          obtain ⟨⟨p, hp, hreads, hvalue, hrelated⟩, hrest⟩ := h
          refine ⟨⟨p, hp, hreads, hvalue, fun he t ht w' _ r _ => ?_⟩, ih hrest w position⟩
          exact ihBelow ((hrelated he).2 t ht) w' _
      | lambda name type => exact h.elim
      | any a => exact h.elim

theorem Follows.single (h : f.Follows schema T) (hs : schema.Accepted) (hT : T ∈ schema.types) :
    f.Single := by
  induction f generalizing T with
  | nil => trivial
  | cons branch below rest ihBelow ih =>
      cases branch with
      | property b =>
          obtain ⟨⟨p, hp, hreads, hvalue, hrelated⟩, hrest⟩ := h
          cases he : p.isElementary with
          | true =>
              obtain rfl := hvalue he
              refine ⟨fun hc => ?_, trivial, ih hrest hT⟩
              simp [hreads.isComplex, he] at hc
          | false =>
              obtain ⟨t, ht, htarget⟩ := hs.targetType hT hp he
              exact ⟨fun _ => hreads.isSingle.trans (hrelated he).1,
                ihBelow ((hrelated he).2 t htarget) ht, ih hrest hT⟩
      | lambda name type => exact h.elim
      | any a => exact h.elim

variable {lambda : String → Option (Place × EntityType)}

theorem Asks.cons_iff {branch : Branch} {below rest : Forest} :
    (cons branch below rest).Asks schema lambda T ↔
      (cons branch below nil).Asks schema lambda T ∧ rest.Asks schema lambda T := by
  cases branch <;> simp [Asks]

theorem Follows.asks (h : f.Follows schema T) : f.Asks schema lambda T := by
  induction f with
  | nil => trivial
  | cons branch below rest _ ih =>
      obtain ⟨hhead, hrest⟩ := Follows.cons_iff.mp h
      cases branch with
      | property b => exact ⟨hhead, ih hrest⟩
      | lambda name type => exact hhead.elim
      | any a => exact hhead.elim

theorem Asks.mono {lambda' : String → Option (Place × EntityType)} (h : f.Asks schema lambda T)
    (hle : ∀ name found, lambda name = some found → lambda' name = some found) :
    f.Asks schema lambda' T := by
  induction f with
  | nil => trivial
  | cons branch below rest _ ih =>
      cases branch with
      | property b => exact ⟨h.1, ih h.2⟩
      | lambda name type =>
          obtain ⟨⟨q, t, hlambda, hrest⟩, hmore⟩ := h
          exact ⟨⟨q, t, hle _ _ hlambda, hrest⟩, ih hmore⟩
      | any a => exact h.1.elim

theorem Asks.merge (hs : schema.Accepted) (hT : T ∈ schema.types) (hf : f.Asks schema lambda T)
    (hg : g.Asks schema lambda T) : (f.merge g).Asks schema lambda T := by
  -- what hangs below a branch starts from no lambda variables
  refine merge_closed (C := Option EntityType)
    (Q := fun f c => match c with
      | none => f.Asks schema lambda T
      | some t => t ∈ schema.types → f.Follows schema t) ?_ ?_ ?_ (c := none) hf hg
  · rintro (_ | t)
    · trivial
    · exact fun _ => trivial
  · rintro branch below rest (_ | t)
    · exact Asks.cons_iff
    · exact (forall_congr' fun _ => Follows.cons_iff).trans forall_and
  · rintro branch below below' merged (_ | t) h h' hmerged hnil
    · have hbelow : ∀ t ∈ schema.types, below.Follows schema t → below'.Follows schema t →
          merged.Follows schema t :=
        fun t ht hb hb' => hmerged (some t) (fun _ => hb) (fun _ => hb') ht
      cases branch with
      | lambda name type =>
          obtain ⟨⟨q, t, hlambda, ht, htype, hb⟩, -⟩ := h
          obtain ⟨⟨q', t', hlambda', -, -, hb'⟩, -⟩ := h'
          obtain ⟨rfl, rfl⟩ : q = q' ∧ t = t' := by
            simpa using Option.some.inj (hlambda.symm.trans hlambda')
          exact ⟨⟨q, t, hlambda, ht, htype, hbelow t ht hb hb'⟩, trivial⟩
      | property b => exact ⟨h.1.combine hs hT h'.1 hbelow hnil, trivial⟩
      | any a => exact h.1.elim
    · exact fun ht => (h ht).combine hs ht (h' ht)
        (fun t ht hb hb' => hmerged (some t) (fun _ => hb) (fun _ => hb') ht) hnil

theorem Asks.single (h : f.Asks schema lambda T) (hs : schema.Accepted) (hT : T ∈ schema.types) :
    f.Single := by
  induction f with
  | nil => trivial
  | cons branch below rest _ ih =>
      cases branch with
      | property b =>
          have hhead := h.1.single hs hT
          exact ⟨hhead.1, hhead.2.1, ih h.2⟩
      | lambda name type =>
          obtain ⟨⟨q, t, -, ht, -, hbelow⟩, hrest⟩ := h
          exact ⟨hbelow.single hs ht, ih hrest⟩
      | any a => exact h.1.elim

section Bound

variable {L : Outlook} {w : Survey} {q : Place} {scope : Scope}

theorem Asks.suits (h : f.Asks schema lambda T) (htop : q.var = L.top) (hbound : w.Binds scope lambda)
    (hL : ∀ name r t, lambda name = some (r, t) → L.lambda name = some (r, t)) :
    f.Suits schema L w ⟨q, scope⟩ T := by
  induction f with
  | nil => trivial
  | cons branch below rest _ ih =>
      cases branch with
      | property b => exact Suits.cons_iff.mpr ⟨h.1.suits L w _, ih h.2⟩
      | lambda name type =>
          obtain ⟨⟨r, t, hlambda, ht, htype, hbelow⟩, hrest⟩ := h
          refine ⟨⟨⟨r, t.name⟩, t, htype.symm, ht, Or.inr ⟨htop, hL name r t hlambda⟩,
            fun w' hle => ?_⟩, ih hrest⟩
          obtain ⟨hresolve, hkind⟩ := hbound name r t hlambda w' hle
          exact ⟨hresolve, hkind, hbelow.suits L w' _⟩
      | any a => exact h.1.elim

theorem Asks.suits_own (h : f.Asks schema lambda T) {name : String} {t : EntityType}
    (hlambda : lambda name = some (q, t)) (hbound : w.Binds scope lambda) :
    (f.filterTop (· = .lambda name t.name)).Suits schema L w ⟨q, scope⟩ t := by
  induction f with
  | nil => trivial
  | cons branch below rest _ ih =>
      obtain ⟨hhead, hrest⟩ := Asks.cons_iff.mp h
      unfold filterTop
      split
      · next heq =>
          obtain rfl : branch = .lambda name t.name := by simpa using heq
          obtain ⟨⟨r, t', hlambda', ht, -, hbelow⟩, -⟩ := hhead
          obtain ⟨rfl, rfl⟩ : q = r ∧ t = t' := by
            simpa using Option.some.inj (hlambda.symm.trans hlambda')
          refine ⟨⟨⟨q, t.name⟩, t, rfl, ht, Or.inl rfl, fun w' hle => ?_⟩, ih hrest⟩
          obtain ⟨hresolve, hkind⟩ := hbound name q t hlambda w' hle
          exact ⟨hresolve, hkind, hbelow.suits L w' _⟩
      · exact ih hrest

theorem Asks.others {name : String} {t : EntityType}
    (h : f.Asks schema (Function.update lambda name (some (q, t))) T) :
    (f.filterTop (· ≠ .lambda name t.name)).Asks schema (Function.update lambda name none) T := by
  induction f with
  | nil => trivial
  | cons branch below rest _ ih =>
      obtain ⟨hhead, hrest⟩ := Asks.cons_iff.mp h
      unfold filterTop
      split
      · next hne =>
          refine Asks.cons_iff.mpr ⟨?_, ih hrest⟩
          cases branch with
          | property b => exact hhead
          | lambda other type =>
              obtain ⟨⟨r, t', hlambda, ht, htype, hbelow⟩, -⟩ := hhead
              by_cases hname : other = name
              · subst hname
                obtain ⟨rfl, rfl⟩ : q = r ∧ t = t' := by simpa using hlambda
                simp [htype] at hne
              · rw [Function.update_of_ne hname] at hlambda
                exact ⟨⟨r, t', (Function.update_of_ne hname _ _).trans hlambda, ht, htype, hbelow⟩, trivial⟩
          | any a => exact hhead.1.elim
      · exact ih hrest

theorem suits_join (hs : schema.Accepted) (hT : T ∈ schema.types) {way : List Branch} {o l : Place}
    {O t : EntityType} {a : AnyBranch}
    (hway : ∀ last, (∀ w', w ≤ w' → last.Suits schema L w' ⟨o, scope⟩ O) →
      (ofPath way last).Suits schema L w ⟨q, scope⟩ T)
    (ht : t ∈ schema.types) (hlink : L.link l.var = some (o.var, a.hop)) (htop : q.var = L.top)
    (hbound : w.Binds scope L.lambda)
    (hinner : w.Binds (scope.enter a.key) (Function.update L.lambda a.lambda (some (l, t))))
    (hf : f.Asks schema (Function.update L.lambda a.lambda (some (l, t))) T) :
    (Filter.joinForest way a t.name f).Suits schema L w ⟨q, scope⟩ T := by
  have hown : Function.update L.lambda a.lambda (some (l, t)) a.lambda = some (l, t) := by simp
  have houter : ∀ name r t', Function.update L.lambda a.lambda none name = some (r, t') →
      L.lambda name = some (r, t') := by
    intro name r t' h
    by_cases hname : name = a.lambda
    · simp [hname] at h
    · rwa [Function.update_of_ne hname] at h
  refine Suits.merge hs hT (hway _ fun w' hle => ?_)
    (hf.others.suits htop (fun name r t' h => hbound name r t' (houter name r t' h)) houter)
  refine ⟨⟨⟨l, t.name⟩, t, ht, hlink, fun w'' hle' => ?_⟩, trivial⟩
  obtain ⟨hresolve, hkind⟩ := hinner a.lambda l t hown w'' (hle.trans hle')
  exact ⟨hresolve, hkind, (hf.suits_own hown hinner).mono (hle.trans hle')⟩

end Bound

section Join

variable {names : Naming} {q l : Place} {scope scope' : Scope} {v : String} {way : List Branch}
  {a : AnyBranch} {t : EntityType}

theorem Follows.mentions (hs : schema.Accepted) (hT : T ∈ schema.types) (h : f.Follows schema T)
    (hm : f.Mentions names ⟨q, scope⟩ v) : f.Mentions names ⟨q, scope'⟩ v := by
  induction f generalizing T q with
  | nil => nomatch hm
  | cons branch below rest ihBelow ih =>
      cases branch with
      | property b =>
          obtain ⟨⟨p, hp, hreads, hvalue, hrelated⟩, hrest⟩ := h
          cases hm with
          | value hc hk hv => exact .value hc hk hv
          | related hc hr => exact .related hc hr
          | belowRelated hc hr hbelow =>
              cases he : p.isElementary with
              | true => simp [hreads.isComplex, he] at hc
              | false =>
                  obtain ⟨t, ht, htarget⟩ := hs.targetType hT hp he
                  exact .belowRelated hc hr (ihBelow ht ((hrelated he).2 t htarget) hbelow)
          | rest hm => exact .rest (ih hT hrest hm)
      | lambda name type => exact h.elim
      | any a => exact h.elim

theorem Mentions.filterTop (hm : f.Mentions names ⟨q, scope⟩ v) (p : Branch → Bool) :
    (f.filterTop p).Mentions names ⟨q, scope⟩ v ∨
      (f.filterTop (! p ·)).Mentions names ⟨q, scope⟩ v := by
  induction f with
  | nil => nomatch hm
  | cons branch below rest _ ih =>
      unfold Forest.filterTop
      cases hp : p branch with
      | true =>
          simp only [if_true, Bool.not_true, Bool.false_eq_true, if_false]
          obtain hm | hm := hm.cons_cases
          · exact Or.inl (hm.cons_imp fun _ => id)
          · exact (ih hm).imp .rest id
      | false =>
          simp only [Bool.not_false, if_true, Bool.false_eq_true, if_false]
          obtain hm | hm := hm.cons_cases
          · exact Or.inr (hm.cons_imp fun _ => id)
          · exact (ih hm).imp id .rest

/-- What is asked for at a lambda variable does not depend on the entity where it is asked for. -/
theorem Mentions.own {name type : String}
    (hm : (f.filterTop (· = .lambda name type)).Mentions names ⟨q, scope⟩ v) :
    (f.filterTop (· = .lambda name type)).Mentions names ⟨l, scope⟩ v := by
  induction f with
  | nil => nomatch hm
  | cons branch below rest _ ih =>
      unfold Forest.filterTop at hm ⊢
      split
      · next heq =>
          rw [if_pos heq] at hm
          obtain rfl : branch = .lambda name type := by simpa using heq
          obtain hm | hm := hm.cons_cases
          · cases hm with
            | belowLambda hr h => exact .belowLambda hr h
            | rest h => nomatch h
          · exact .rest (ih hm)
      · next hne =>
          rw [if_neg hne] at hm
          exact ih hm

theorem Asks.mentions (hs : schema.Accepted) (hT : T ∈ schema.types) (h : f.Asks schema lambda T)
    (hresolve : ∀ name r t, lambda name = some (r, t) →
      names.resolve scope' name = names.resolve scope name)
    (hm : f.Mentions names ⟨q, scope⟩ v) : f.Mentions names ⟨q, scope'⟩ v := by
  induction f with
  | nil => nomatch hm
  | cons branch below rest _ ih =>
      obtain ⟨hhead, hrest⟩ := Asks.cons_iff.mp h
      obtain hm | hm := hm.cons_cases
      · cases branch with
        | property b => exact (hhead.1.mentions hs hT hm).cons_imp fun _ => id
        | lambda name type =>
            obtain ⟨⟨r, t, hlambda, ht, -, hbelow⟩, -⟩ := hhead
            cases hm with
            | belowLambda hr h =>
                exact .belowLambda ((hresolve name r t hlambda).trans hr) (hbelow.mentions hs ht h)
            | rest h => nomatch h
        | any a => exact hhead.1.elim
      · exact .rest (ih hrest hm)

theorem mentions_join (hs : schema.Accepted) (hT : T ∈ schema.types) {o : Place}
    (hway : ∀ last v, last.Mentions names ⟨o, scope⟩ v → (ofPath way last).Mentions names ⟨q, scope⟩ v)
    (hown : names.resolve (scope.enter a.key) a.lambda = .ok ⟨l, t.name⟩)
    (hothers : ∀ name, name ≠ a.lambda →
      names.resolve (scope.enter a.key) name = names.resolve scope name)
    (hf : f.Asks schema (Function.update lambda a.lambda (some (l, t))) T)
    (hm : f.Mentions names ⟨q, scope.enter a.key⟩ v) :
    (Filter.joinForest way a t.name f).Mentions names ⟨q, scope⟩ v := by
  obtain hm | hm := hm.filterTop (· = .lambda a.lambda t.name)
  · exact .merge_left (hway _ _ (.belowElement hown hm.own))
  · simp only [← decide_not] at hm
    refine .merge_right (hf.others.mentions hs hT (fun name r t' h => ?_) hm)
    refine (hothers name ?_).symm
    rintro rfl
    simp at h

theorem Single.merge (hf : f.Single) (hg : g.Single) : (f.merge g).Single := by
  refine merge_closed (C := Unit) (Q := fun f _ => f.Single) (fun _ => trivial) ?_ ?_ (c := ()) hf hg
  · intro branch below rest _
    cases branch <;> simp [Single, and_assoc]
  · intro branch below below' merged _ h h' hmerged _
    cases branch with
    | property b => exact ⟨h.1, hmerged () h.2.1 h'.2.1, trivial⟩
    | lambda name type => exact ⟨hmerged () h.1 h'.1, trivial⟩
    | any a => exact ⟨hmerged () h.1 h'.1, trivial⟩

theorem Single.filterTop (hf : f.Single) (p : Branch → Bool) : (f.filterTop p).Single := by
  induction f with
  | nil => trivial
  | cons branch below rest _ ih =>
      unfold Forest.filterTop
      cases branch with
      | property b =>
          split
          · exact ⟨hf.1, hf.2.1, ih hf.2.2⟩
          · exact ih hf.2.2
      | lambda name type =>
          split
          · exact ⟨hf.1, ih hf.2⟩
          · exact ih hf.2
      | any a =>
          split
          · exact ⟨hf.1, ih hf.2⟩
          · exact ih hf.2

theorem single_join (hway : ∀ last : Forest, last.Single → (ofPath way last).Single) (hf : f.Single)
    (type : String) : (Filter.joinForest way a type f).Single :=
  (hway (cons (.any a) _ nil) ⟨hf.filterTop _, trivial⟩).merge (hf.filterTop _)

end Join
end Forest
end EntityGraph
