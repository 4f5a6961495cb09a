import EntityGraph.Branch.Forest
import Mathlib.Data.List.Nodup
import Mathlib.Tactic.Common

/-!
# Forests as ordered sets of paths

A forest without repeated branches is the set of its paths, with an order of the branches that hang at the
end of each path. A merge adds the paths of the second forest: what hangs at a place keeps its order, and
what is new there comes last, in the order it has in the second forest. Since nothing else tells two forests
apart, merging is associative and idempotent, the empty forest is neutral, and which forest comes first only
matters for the order.
-/
namespace EntityGraph.Forest

variable {F G H below : Forest} {branch b : Branch} {path q : List Branch}

/-- The branches that hang at the end of a path, in their order. -/
def children : Forest → List Branch → List Branch
  | nil, _ => []
  | cons branch _ rest, [] => branch :: rest.children []
  | cons branch below rest, b :: path => if branch = b then below.children path else rest.children (b :: path)

def under (b : Branch) : Forest → Forest
  | nil => nil
  | cons branch below rest => if branch = b then below else rest.under b

/-- At no place a branch hangs twice. -/
def Distinct : Forest → Prop
  | nil => True
  | cons branch below rest => branch ∉ rest.children [] ∧ below.Distinct ∧ rest.Distinct

/-- All paths that lead to branches, depth first. -/
def paths : Forest → List (List Branch)
  | nil => []
  | cons branch below rest => [branch] :: below.paths.map (branch :: ·) ++ rest.paths

theorem children_cons (F : Forest) (b : Branch) (path : List Branch) :
    F.children (b :: path) = (F.under b).children path := by
  induction F with
  | nil => rfl
  | cons branch below rest _ ih => by_cases h : branch = b <;> simp [children, under, h, ih]

theorem under_of_not_mem (h : b ∉ F.children []) : F.under b = nil := by
  induction F with
  | nil => rfl
  | cons branch below rest _ ih =>
      obtain ⟨hne, hrest⟩ := not_or.mp (List.mem_cons.not.mp h)
      simp [under, Ne.symm hne, ih hrest]

theorem children_update (F : Forest) (b : Branch) (f : Forest → Forest) :
    (F.update b f).children [] = F.children [] ++ if b ∈ F.children [] then [] else [b] := by
  induction F with
  | nil => rfl
  | cons branch below rest _ ih =>
      by_cases h : branch = b
      · simp [update, children, h]
      · simp [update, children, h, Ne.symm h, ih]

theorem under_update (F : Forest) (b b' : Branch) (f : Forest → Forest) :
    (F.update b f).under b' = if b' = b then f (F.under b) else F.under b' := by
  induction F with
  | nil => by_cases h : b = b' <;> simp [update, under, h, eq_comm]
  | cons branch below rest _ ih =>
      by_cases h : branch = b
      · subst h
        by_cases h' : branch = b' <;> simp [update, under, h', Ne.symm]
      · by_cases h' : branch = b'
        · have hne : b' ≠ b := fun heq => h (h'.trans heq)
          simp [update, under, h', hne]
        · simp [update, under, h, h', ih]

theorem children_merge (hG : G.Distinct) (F : Forest) (path : List Branch) :
    (F.merge G).children path = F.children path ++ (G.children path).filter (· ∉ F.children path) := by
  induction G generalizing F path with
  | nil => simp [merge, children]
  | cons branch below rest ihBelow ih =>
      obtain ⟨hnot, hbelow, hrest⟩ := hG
      rw [merge, ih hrest]
      cases path with
      | nil =>
          rw [children_update]
          by_cases h : branch ∈ F.children []
          · simp [children, h]
          · have hfilter : (rest.children []).filter (· ∉ F.children [] ++ [branch]) =
                (rest.children []).filter (· ∉ F.children []) := List.filter_congr fun x hx => by
              have hne : x ≠ branch := fun heq => hnot (heq ▸ hx)
              simp [hne]
            simp only [if_neg h, hfilter]
            simp [children, h]
      | cons b path =>
          rw [children_cons, under_update, children_cons rest, children_cons F, children_cons (cons ..)]
          by_cases h : b = branch
          · subst h
            simp [under, ihBelow hbelow, under_of_not_mem hnot, children]
          · simp [under, h, Ne.symm h]

theorem Distinct.update (hF : F.Distinct) (b : Branch) {f : Forest → Forest}
    (hf : ∀ there : Forest, there.Distinct → (f there).Distinct) : (F.update b f).Distinct := by
  induction F with
  | nil => exact ⟨List.not_mem_nil, hf nil trivial, trivial⟩
  | cons branch below rest _ ih =>
      obtain ⟨hnot, hbelow, hrest⟩ := hF
      unfold Forest.update
      split
      · exact ⟨hnot, hf below hbelow, hrest⟩
      · next hne =>
          refine ⟨fun hmem => ?_, hbelow, ih hrest⟩
          rw [children_update] at hmem
          obtain hmem | hmem := List.mem_append.mp hmem
          · exact hnot hmem
          · split at hmem
            · simp at hmem
            · exact hne (List.mem_singleton.mp hmem)

theorem Distinct.merge (hF : F.Distinct) (hG : G.Distinct) : (F.merge G).Distinct := by
  induction G generalizing F with
  | nil => exact hF
  | cons branch below rest ihBelow ih =>
      exact ih (hF.update branch fun there h => ihBelow h hG.2.1) hG.2.2

/-- Forests are told apart by what hangs at the end of each path. -/
theorem Distinct.ext (hF : F.Distinct) (hG : G.Distinct)
    (h : ∀ path, F.children path = G.children path) : F = G := by
  induction F generalizing G with
  | nil =>
      cases G with
      | nil => rfl
      | cons branch below rest => simpa [children] using h []
  | cons branch below rest ihBelow ih =>
      cases G with
      | nil => simpa [children] using h []
      | cons branch' below' rest' =>
          obtain ⟨hnot, hbelow, hrest⟩ := hF
          obtain ⟨hnot', hbelow', hrest'⟩ := hG
          obtain ⟨rfl, htop⟩ : branch = branch' ∧ rest.children [] = rest'.children [] := by
            simpa [children] using h []
          have hunder := ihBelow hbelow hbelow' fun path => by simpa [children] using h (branch :: path)
          have hothers := ih hrest hrest' fun path => by
            cases path with
            | nil => exact htop
            | cons b path =>
                by_cases hb : branch = b
                · subst hb
                  rw [children_cons, children_cons, under_of_not_mem hnot, under_of_not_mem hnot']
                · simpa [children, hb] using h (b :: path)
          rw [hunder, hothers]

theorem nil_not_mem_paths (F : Forest) : [] ∉ F.paths := by
  induction F with
  | nil => exact List.not_mem_nil
  | cons branch below rest _ ih => simpa [paths] using ih

theorem mem_children_of_mem_paths (h : b :: path ∈ F.paths) : b ∈ F.children [] := by
  induction F with
  | nil => simp [paths] at h
  | cons branch below rest _ ih =>
      obtain h | h := List.mem_append.mp h
      · obtain heq | h := List.mem_cons.mp h
        · exact List.mem_cons.mpr (Or.inl (List.cons.inj heq).1)
        · obtain ⟨p, -, heq⟩ := List.mem_map.mp h
          exact List.mem_cons.mpr (Or.inl (List.cons.inj heq).1.symm)
      · exact List.mem_cons_of_mem _ (ih h)

theorem Distinct.mem_paths (hF : F.Distinct) : path ++ [b] ∈ F.paths ↔ b ∈ F.children path := by
  induction F generalizing path with
  | nil => simp [paths, children]
  | cons branch below rest ihBelow ih =>
      obtain ⟨hnot, hbelow, hrest⟩ := hF
      cases path with
      | nil =>
          have hnil : ∀ p ∈ below.paths, p ≠ [] := fun p hp heq => nil_not_mem_paths below (heq ▸ hp)
          have hbelow' : [b] ∉ below.paths.map (branch :: ·) := fun hmem => by
            obtain ⟨p, hp, heq⟩ := List.mem_map.mp hmem
            exact hnil p hp (List.cons.inj heq).2
          have hrest' := @ih [] hrest
          rw [List.nil_append] at hrest' ⊢
          simp [paths, children, hbelow', hrest']
      | cons c path =>
          by_cases hc : branch = c
          · subst hc
            have hrest' : branch :: (path ++ [b]) ∉ rest.paths :=
              fun hmem => hnot (mem_children_of_mem_paths hmem)
            simp [paths, children, hrest', ihBelow hbelow]
          · have hrest' := @ih (c :: path) hrest
            rw [List.cons_append] at hrest'
            simp [paths, children, hc, Ne.symm hc, hrest']

theorem Distinct.nodup_paths (hF : F.Distinct) : F.paths.Nodup := by
  induction F with
  | nil => exact List.nodup_nil
  | cons branch below rest ihBelow ih =>
      obtain ⟨hnot, hbelow, hrest⟩ := hF
      have hmap : (below.paths.map (branch :: ·)).Nodup := (ihBelow hbelow).map fun _ _ h =>
        (List.cons.inj h).2
      have hhere : [branch] ∉ below.paths.map (branch :: ·) := fun hmem => by
        obtain ⟨p, hp, heq⟩ := List.mem_map.mp hmem
        exact nil_not_mem_paths below ((List.cons.inj heq).2 ▸ hp)
      refine List.nodup_append.mpr ⟨List.nodup_cons.mpr ⟨hhere, hmap⟩, ih hrest, fun p hp p' hp' heq => ?_⟩
      subst heq
      obtain rfl | hp := List.mem_cons.mp hp
      · exact hnot (mem_children_of_mem_paths hp')
      · obtain ⟨r, -, rfl⟩ := List.mem_map.mp hp
        exact hnot (mem_children_of_mem_paths hp')

theorem Distinct.mem_paths_merge (hF : F.Distinct) (hG : G.Distinct) :
    q ∈ (F.merge G).paths ↔ q ∈ F.paths ∨ q ∈ G.paths := by
  obtain rfl | ⟨path, b, rfl⟩ := List.eq_nil_or_concat' q
  · simp [nil_not_mem_paths]
  · rw [(hF.merge hG).mem_paths, hF.mem_paths, hG.mem_paths, children_merge hG, List.mem_append,
      List.mem_filter]
    by_cases h : b ∈ F.children path <;> simp [h]

theorem nil_merge (hF : F.Distinct) : nil.merge F = F := by
  have hnil : nil.Distinct := trivial
  exact (hnil.merge hF).ext hF fun path => by simp [children_merge hF, children]

theorem merge_self (hF : F.Distinct) : F.merge F = F :=
  (hF.merge hF).ext hF fun path => by simp [children_merge hF]

theorem merge_assoc (hF : F.Distinct) (hG : G.Distinct) (hH : H.Distinct) :
    (F.merge G).merge H = F.merge (G.merge H) := by
  refine ((hF.merge hG).merge hH).ext (hF.merge (hG.merge hH)) fun path => ?_
  rw [children_merge hH, children_merge hG, children_merge (hG.merge hH), children_merge hH,
    List.filter_append, List.filter_filter, List.append_assoc]
  refine congrArg _ (congrArg _ (List.filter_congr fun x _ => ?_))
  by_cases hx : x ∈ F.children path <;> simp [hx]

theorem distinct_ofPath (path : List Branch) (hF : F.Distinct) : (ofPath path F).Distinct := by
  induction path with
  | nil => exact hF
  | cons b path ih => exact ⟨List.not_mem_nil, ih, trivial⟩

theorem mem_paths_ofPath : q ∈ (ofPath path F).paths ↔
    (q ≠ [] ∧ q <+: path) ∨ ∃ r ∈ F.paths, q = path ++ r := by
  induction path generalizing q with
  | nil => simp [ofPath]
  | cons b path ih =>
      have hpaths : (ofPath (b :: path) F).paths = [b] :: (ofPath path F).paths.map (b :: ·) := by
        simp [ofPath, paths]
      rw [hpaths, List.mem_cons, List.mem_map]
      constructor
      · rintro (rfl | ⟨p, hp, rfl⟩)
        · exact Or.inl ⟨by simp, by simp⟩
        · obtain ⟨-, hprefix⟩ | ⟨r, hr, rfl⟩ := ih.mp hp
          · exact Or.inl ⟨by simp, List.cons_prefix_cons.mpr ⟨rfl, hprefix⟩⟩
          · exact Or.inr ⟨r, hr, rfl⟩
      · rintro (⟨hne, hprefix⟩ | ⟨r, hr, rfl⟩)
        · obtain _ | ⟨c, q⟩ := q
          · simp at hne
          · obtain ⟨rfl, hrest⟩ := List.cons_prefix_cons.mp hprefix
            obtain _ | ⟨c', q⟩ := q
            · exact Or.inl rfl
            · exact Or.inr ⟨_, ih.mpr (Or.inl ⟨by simp, hrest⟩), rfl⟩
        · exact Or.inr ⟨_, ih.mpr (Or.inr ⟨r, hr, rfl⟩), rfl⟩

/-- The branches by which the paths of a list go on at the end of another path. -/
def ends (L : List (List Branch)) (path : List Branch) : List Branch :=
  L.filterMap fun q => if q.dropLast = path then q.getLast? else none

def addPath (L : List (List Branch)) (q : List Branch) : List (List Branch) :=
  if q ∈ L then L else L ++ [q]

variable {L added : List (List Branch)}

theorem ends_append (L L' : List (List Branch)) (path : List Branch) :
    ends (L ++ L') path = ends L path ++ ends L' path := List.filterMap_append

theorem ends_singleton (path q : List Branch) (b : Branch) :
    ends [q ++ [b]] path = if q = path then [b] else [] := by
  by_cases h : q = path <;> simp [ends, h]

theorem ends_cons (path q : List Branch) (b : Branch) (L : List (List Branch)) :
    ends ((q ++ [b]) :: L) path = (if q = path then [b] else []) ++ ends L path := by
  rw [← ends_singleton, ← ends_append]
  rfl

theorem mem_ends : b ∈ ends L path ↔ path ++ [b] ∈ L := by
  rw [ends, List.mem_filterMap]
  constructor
  · rintro ⟨q, hq, hb⟩
    split at hb
    · next hpath =>
        subst hpath
        obtain ⟨hne, rfl⟩ := List.getLast?_eq_some_iff.mp hb
        simpa using hq
    · simp at hb
  · exact fun h => ⟨_, h, by simp⟩

theorem nodup_ends (h : L.Nodup) (path : List Branch) : (ends L path).Nodup := by
  refine List.Nodup.filterMap (fun q q' b hb hb' => ?_) h
  simp only [Option.mem_def] at hb hb'
  split at hb
  · split at hb'
    · next heq heq' =>
        rw [← List.dropLast_append_getLast? b hb, ← List.dropLast_append_getLast? b hb', heq, heq']
    · simp at hb'
  · simp at hb

theorem nodup_addPath (h : L.Nodup) (q : List Branch) : (addPath L q).Nodup := by
  unfold addPath
  split
  · exact h
  · next hnot =>
      exact List.nodup_append.mpr ⟨h, List.nodup_singleton q, fun _ ha _ hb heq =>
        hnot (List.mem_singleton.mp hb ▸ heq ▸ ha)⟩

theorem ends_foldl_addPath (hadded : added.Nodup) (hnil : [] ∉ added) (L : List (List Branch))
    (path : List Branch) :
    ends (added.foldl addPath L) path = ends L path ++ (ends added path).filter (· ∉ ends L path) := by
  induction added generalizing L with
  | nil => simp [ends]
  | cons p rest ih =>
      obtain ⟨hnot, hrest⟩ := List.nodup_cons.mp hadded
      obtain ⟨hne, hothers⟩ := not_or.mp (List.mem_cons.not.mp hnil)
      obtain rfl | ⟨q, b, rfl⟩ := List.eq_nil_or_concat' p
      · exact absurd rfl hne
      · rw [List.foldl_cons, ih hrest hothers, ends_cons, addPath]
        by_cases hq : q = path
        · subst hq
          by_cases hmem : q ++ [b] ∈ L
          · have hb : b ∈ ends L q := mem_ends.mpr hmem
            simp [hmem, hb]
          · have hb : b ∉ ends L q := fun hb => hmem (mem_ends.mp hb)
            have hfilter : (ends rest q).filter (· ∉ ends L q ++ [b]) = (ends rest q).filter (· ∉ ends L q) :=
              List.filter_congr fun x hx => by
                have hxb : x ≠ b := fun heq => hnot (mem_ends.mp (heq ▸ hx))
                simp [hxb]
            rw [if_neg hmem, ends_append, ends_singleton, if_pos rfl, hfilter]
            simp [hb]
        · by_cases hmem : q ++ [b] ∈ L
          · simp [hmem, hq]
          · rw [if_neg hmem, ends_append, ends_singleton, if_neg hq]
            simp

theorem Distinct.ends_paths (hF : F.Distinct) (path : List Branch) : ends F.paths path = F.children path := by
  induction F generalizing path with
  | nil => rfl
  | cons branch below rest ihBelow ih =>
      obtain ⟨hnot, hbelow, hrest⟩ := hF
      have hmap : ends (below.paths.map (branch :: ·)) path =
          match path with
          | [] => []
          | b :: path => if branch = b then below.children path else [] := by
        rw [ends, List.filterMap_map]
        cases path with
        | nil =>
            refine List.filterMap_eq_nil_iff.mpr fun q hq => ?_
            have hne : q ≠ [] := fun heq => nil_not_mem_paths below (heq ▸ hq)
            simp [List.dropLast_cons_of_ne_nil hne]
        | cons b path =>
            by_cases hb : branch = b
            · subst hb
              simp only [if_true]
              rw [← ihBelow hbelow path]
              refine List.filterMap_congr fun q hq => ?_
              have hne : q ≠ [] := fun heq => nil_not_mem_paths below (heq ▸ hq)
              simp [List.dropLast_cons_of_ne_nil hne, List.getLast?_cons_of_ne_nil hne]
            · simp only [if_neg hb]
              refine List.filterMap_eq_nil_iff.mpr fun q hq => ?_
              have hne : q ≠ [] := fun heq => nil_not_mem_paths below (heq ▸ hq)
              simp [List.dropLast_cons_of_ne_nil hne, hb]
      have hcons := ends_cons path [] branch (below.paths.map (branch :: ·))
      rw [List.nil_append] at hcons
      rw [paths, ends_append, hcons, hmap, ih hrest]
      cases path with
      | nil => rfl
      | cons b path =>
          by_cases hb : branch = b
          · subst hb
            simp [children, children_cons rest, under_of_not_mem hnot]
          · simp [children, hb]

end EntityGraph.Forest
