import EntityGraph.Proofs.Expand.Fits
import EntityGraph.Read.Compile
import Mathlib.Data.String.Basic

/-!
# Expand trees as sets of paths

The names of every level of an expand tree ascend, and adding a path keeps it so. Such a tree is
determined by its paths, and adding a path adds the prefixes of this path and nothing else. So the tree of
a list of written paths depends only on what is requested: not on the order of the list, nor on paths that
occur twice or that lead on the way to others. The same holds of everything that is made of the tree, down
to the numbers of the variables in the text of a query.
-/
namespace EntityGraph

namespace Text

theorem splitAt_ne_nil (separator : Char) (s : List Char) : splitAt separator s ≠ [] := by
  cases s with
  | nil => simp [splitAt]
  | cons c s =>
      unfold splitAt
      split
      · simp
      · split <;> simp

theorem intercalate_splitAt (separator : Char) (s : List Char) :
    [separator].intercalate (splitAt separator s) = s := by
  induction s with
  | nil => rfl
  | cons c s ih =>
      obtain ⟨word, words, hsplit⟩ := List.exists_cons_of_ne_nil (splitAt_ne_nil separator s)
      unfold splitAt
      split
      · next hc => rw [hsplit, List.intercalate_cons_cons, ← hsplit, ih, hc]; rfl
      · rw [hsplit] at ih ⊢
        cases words with
        | nil => simpa using ih
        | cons next words =>
            simpa only [List.intercalate_cons_cons, List.cons_append, List.cons.injEq, true_and] using ih

theorem not_mem_of_mem_splitAt {separator : Char} {s piece : List Char} (h : piece ∈ splitAt separator s) :
    separator ∉ piece := by
  induction s generalizing piece with
  | nil => simp_all [splitAt]
  | cons c s ih =>
      obtain ⟨word, words, hsplit⟩ := List.exists_cons_of_ne_nil (splitAt_ne_nil separator s)
      unfold splitAt at h
      rw [hsplit] at h ih
      split at h
      · obtain rfl | h := List.mem_cons.mp h
        · exact List.not_mem_nil
        · exact ih h
      · next hc =>
          obtain rfl | h := List.mem_cons.mp h
          · exact List.not_mem_cons_of_ne_of_not_mem (Ne.symm hc) (ih List.mem_cons_self)
          · exact ih (List.mem_cons_of_mem _ h)

end Text

namespace ExpandTree

/-- The names of every level ascend. -/
def Ordered : ExpandTree → Prop
  | nil => True
  | cons name below rest => (∀ other ∈ rest.names, name < other) ∧ below.Ordered ∧ rest.Ordered

/-- The paths of a tree, without the empty one. -/
def paths : ExpandTree → List (List String)
  | nil => []
  | cons name below rest => [name] :: below.paths.map (name :: ·) ++ rest.paths

variable {tree left right : ExpandTree} {name : String} {path : List String}

theorem nil_not_mem_paths (tree : ExpandTree) : [] ∉ tree.paths := by
  induction tree with
  | nil => simp [paths]
  | cons name below rest _ ih => simp [paths, ih]

theorem mem_names_of_mem_paths (h : name :: path ∈ tree.paths) : name ∈ tree.names := by
  induction tree with
  | nil => simp [paths] at h
  | cons other below rest _ ih =>
      unfold paths at h
      obtain h | h := List.mem_append.mp h
      · simp only [List.mem_cons, List.mem_map, List.cons.injEq] at h
        obtain ⟨rfl, -⟩ | ⟨_, -, rfl, -⟩ := h <;> exact List.mem_cons_self
      · exact List.mem_cons_of_mem _ (ih h)

theorem Ordered.mem_paths (h : tree.Ordered) :
    name :: path ∈ tree.paths ↔ ∃ sub, tree.child? name = some sub ∧ (path = [] ∨ path ∈ sub.paths) := by
  induction tree with
  | nil => simp [paths, child?]
  | cons other below rest _ ih =>
      obtain ⟨hfirst, -, hrest⟩ := h
      have hhere : name :: path ∈ [other] :: below.paths.map (other :: ·) ↔
          other = name ∧ (path = [] ∨ path ∈ below.paths) := by
        simp only [List.mem_cons, List.mem_map, List.cons.injEq]
        constructor
        · rintro (⟨rfl, hpath⟩ | ⟨_, hpath, rfl, rfl⟩)
          · exact ⟨rfl, Or.inl hpath⟩
          · exact ⟨rfl, Or.inr hpath⟩
        · rintro ⟨rfl, hpath | hpath⟩
          · exact Or.inl ⟨rfl, hpath⟩
          · exact Or.inr ⟨path, hpath, rfl, rfl⟩
      rw [paths, List.mem_append, hhere, child?]
      by_cases hname : other = name
      · subst hname
        have hlast : other :: path ∉ rest.paths := fun hmem =>
          lt_irrefl _ (hfirst _ (mem_names_of_mem_paths hmem))
        simp [hlast]
      · simp [hname, ih hrest]

theorem Ordered.child? (h : tree.Ordered) {sub : ExpandTree} (hc : tree.child? name = some sub) :
    sub.Ordered := by
  induction tree with
  | nil => simp [ExpandTree.child?] at hc
  | cons other below rest _ ih =>
      obtain ⟨-, hbelow, hrest⟩ := h
      unfold ExpandTree.child? at hc
      split at hc
      · exact Option.some.inj hc ▸ hbelow
      · exact ih hrest hc

theorem Ordered.ext (hl : left.Ordered) (hr : right.Ordered)
    (h : ∀ path, path ∈ left.paths ↔ path ∈ right.paths) : left = right := by
  induction left generalizing right with
  | nil =>
      cases right with
      | nil => rfl
      | cons name below rest => simpa [paths] using h [name]
  | cons name below rest ihBelow ihRest =>
      cases right with
      | nil => simpa [paths] using h [name]
      | cons name' below' rest' =>
          obtain ⟨hfirst, hbelow, hrest⟩ := id hl
          obtain ⟨hfirst', hbelow', hrest'⟩ := id hr
          have hname : name = name' := by
            have hmem : name ∈ (cons name' below' rest').names :=
              mem_names_of_mem_paths ((h [name]).mp (by simp [paths]))
            have hmem' : name' ∈ (cons name below rest).names :=
              mem_names_of_mem_paths ((h [name']).mpr (by simp [paths]))
            obtain heq | hmem := List.mem_cons.mp hmem
            · exact heq
            · obtain heq | hmem' := List.mem_cons.mp hmem'
              · exact heq.symm
              · exact absurd (hfirst' _ hmem) (hfirst _ hmem').asymm
          subst hname
          have hnot : ∀ {t : ExpandTree} {path : List String}, (∀ other ∈ t.names, name < other) →
              name :: path ∉ t.paths := fun ht hmem => lt_irrefl _ (ht _ (mem_names_of_mem_paths hmem))
          congr 1
          · refine ihBelow hbelow hbelow' fun path => ?_
            have hpath := h (name :: path)
            rw [hl.mem_paths, hr.mem_paths] at hpath
            by_cases hnil : path = []
            · simp [hnil, nil_not_mem_paths]
            · simpa [ExpandTree.child?, hnil] using hpath
          · refine ihRest hrest hrest' fun path => ?_
            cases path with
            | nil => simp [nil_not_mem_paths]
            | cons first path =>
                by_cases hne : first = name
                · subst hne
                  simp [hnot hfirst, hnot hfirst']
                · have hpath := h (first :: path)
                  rw [hl.mem_paths, hr.mem_paths] at hpath
                  rw [hrest.mem_paths, hrest'.mem_paths]
                  simpa [ExpandTree.child?, Ne.symm hne] using hpath

theorem mem_names_update {other : String} (f : ExpandTree → ExpandTree) :
    other ∈ (tree.update name f).names ↔ other = name ∨ other ∈ tree.names := by
  induction tree with
  | nil => simp [update, names]
  | cons first below rest _ ih =>
      unfold update
      split
      · next hname => simp [names, hname]
      · split
        · simp [names]
        · simp only [names, List.mem_cons, ih]
          exact or_left_comm

theorem Ordered.update (h : tree.Ordered) {f : ExpandTree → ExpandTree}
    (hf : ∀ t, t.Ordered → (f t).Ordered) : (tree.update name f).Ordered := by
  induction tree with
  | nil => exact ⟨by simp [names], hf nil trivial, trivial⟩
  | cons first below rest _ ih =>
      obtain ⟨hfirst, hbelow, hrest⟩ := id h
      unfold ExpandTree.update
      split
      · exact ⟨hfirst, hf below hbelow, hrest⟩
      · next hname =>
          split
          · next hlt =>
              refine ⟨fun other hother => ?_, hf nil trivial, h⟩
              obtain rfl | hother := List.mem_cons.mp hother
              · exact hlt
              · exact hlt.trans (hfirst other hother)
          · next hlt =>
              refine ⟨fun other hother => ?_, hbelow, ih hrest⟩
              obtain rfl | hother := (mem_names_update f).mp hother
              · exact lt_of_le_of_ne (not_lt.mp hlt) (Ne.symm hname)
              · exact hfirst other hother

theorem Ordered.child?_update (h : tree.Ordered) (f : ExpandTree → ExpandTree) (other : String) :
    (tree.update name f).child? other =
      if other = name then some (f ((tree.child? name).getD nil)) else tree.child? other := by
  induction tree with
  | nil => simp [ExpandTree.update, ExpandTree.child?, eq_comm]
  | cons first below rest _ ih =>
      obtain ⟨hfirst, -, hrest⟩ := id h
      unfold ExpandTree.update
      split
      · next hname =>
          subst hname
          by_cases hother : other = name
          · simp [ExpandTree.child?, hother]
          · simp [ExpandTree.child?, hother, Ne.symm hother]
      · next hname =>
          split
          · next hlt =>
              have hnone : (cons first below rest).child? name = none := by
                refine Option.eq_none_iff_forall_ne_some.mpr fun sub hsub => ?_
                obtain rfl | hmem := List.mem_cons.mp (mem_names.mpr ⟨sub, hsub⟩)
                · exact hname rfl
                · exact lt_asymm hlt (hfirst name hmem)
              rw [hnone]
              by_cases hother : other = name
              · simp [ExpandTree.child?, hother]
              · simp [ExpandTree.child?, hother, Ne.symm hother]
          · simp only [ExpandTree.child?, ih hrest, Ne.symm hname, if_false]
            by_cases hother : first = other
            · simp [← hother, Ne.symm hname]
            · simp [hother]

theorem Ordered.addPath (h : tree.Ordered) (path : List String) : (tree.addPath path).Ordered := by
  induction path generalizing tree with
  | nil => exact h
  | cons name path ih => exact h.update fun _ => ih

theorem Ordered.mem_paths_addPath (h : tree.Ordered) (added : List String) :
    path ∈ (tree.addPath added).paths ↔ path ∈ tree.paths ∨ path ≠ [] ∧ path <+: added := by
  induction added generalizing tree path with
  | nil => simp [ExpandTree.addPath]
  | cons name added ih =>
      cases path with
      | nil => simp [nil_not_mem_paths]
      | cons first path =>
          rw [(h.addPath (name :: added)).mem_paths, h.mem_paths, ExpandTree.addPath, h.child?_update]
          by_cases hname : first = name
          · subst hname
            have hinner : ((tree.child? first).getD nil).Ordered := by
              cases hc : tree.child? first with
              | none => trivial
              | some sub => exact h.child? hc
            rw [if_pos rfl]
            simp only [Option.some.injEq, exists_eq_left', ih hinner, ne_eq, reduceCtorEq, not_false_eq_true,
              true_and, List.cons_prefix_cons]
            have hnil : path = [] → path <+: added := fun h => h ▸ List.nil_prefix
            cases tree.child? first with
            | none => simp only [Option.getD_none, paths, List.not_mem_nil, false_or]; tauto
            | some sub => simp only [Option.getD_some, Option.some.injEq, exists_eq_left']; tauto
          · simp [hname]

def addPaths (added : List (List String)) (tree : ExpandTree) : ExpandTree :=
  added.foldl (fun tree path => tree.addPath path) tree

theorem ofPaths_eq_addPaths (written : List String) :
    ofPaths written = nil.addPaths (written.map segments) := by
  rw [addPaths, List.foldl_map]
  rfl

theorem Ordered.addPaths (h : tree.Ordered) (added : List (List String)) : (tree.addPaths added).Ordered := by
  induction added generalizing tree with
  | nil => exact h
  | cons path added ih => exact ih (h.addPath path)

theorem Ordered.mem_paths_addPaths (h : tree.Ordered) (added : List (List String)) :
    path ∈ (tree.addPaths added).paths ↔ path ∈ tree.paths ∨ path ≠ [] ∧ ∃ q ∈ added, path <+: q := by
  induction added generalizing tree with
  | nil => simp [ExpandTree.addPaths]
  | cons q added ih =>
      have hrest := ih (h.addPath q)
      rw [h.mem_paths_addPath] at hrest
      rw [List.exists_mem_cons_iff, and_or_left, ← or_assoc]
      exact hrest

/-- The paths that a list of written paths asks for. -/
def Requested (written : List String) (path : List String) : Prop :=
  path ≠ [] ∧ ∃ w ∈ written, path <+: segments w

theorem mem_paths_ofPaths (written : List String) :
    path ∈ (ofPaths written).paths ↔ Requested written path := by
  have hnil : nil.Ordered := trivial
  rw [ofPaths_eq_addPaths, hnil.mem_paths_addPaths]
  simp [paths, Requested]

theorem ordered_ofPaths (written : List String) : (ofPaths written).Ordered := by
  have hnil : nil.Ordered := trivial
  exact ofPaths_eq_addPaths written ▸ hnil.addPaths _

theorem ofPaths_eq_iff (written other : List String) :
    ofPaths other = ofPaths written ↔ ∀ path, Requested other path ↔ Requested written path := by
  simp only [← mem_paths_ofPaths]
  exact ⟨fun h path => by rw [h], fun h => (ordered_ofPaths other).ext (ordered_ofPaths written) h⟩

/-- Written paths are split at slashes, blanks around names and empty names do not count, and what is asked
for are the prefixes of the paths that remain. The tree has these paths, so that it is the same for all
lists that ask for the same, as those do that differ in order, in repetitions and in paths that lead on the
way to others. It makes no difference in which order paths are added to a tree. And the query for the tree
is the same. -/
theorem ofPaths_requested (written : List String) :
    (∀ path, path ∈ (ofPaths written).paths ↔ path ≠ [] ∧ ∃ w ∈ written, path <+: segments w) ∧
    (∀ w, ∃ pieces, ['/'].intercalate pieces = w.toList ∧ (∀ piece ∈ pieces, '/' ∉ piece) ∧
      segments w = ((pieces.map Text.trimBlank).filter (· ≠ [])).map String.ofList) ∧
    (∀ other, ofPaths other = ofPaths written ↔ ∀ path, Requested other path ↔ Requested written path) ∧
    (∀ other, written ⊆ other → (∀ w ∈ other, ∃ w' ∈ written, segments w <+: segments w') →
      ofPaths other = ofPaths written ∧ ∀ (reader : Reader) (request : ReadRequest),
        reader.compile { request with expand := ofPaths other } =
          reader.compile { request with expand := ofPaths written }) ∧
    ∀ (tree : ExpandTree) (added more : List (List String)), tree.Ordered → added.Perm more →
      tree.addPaths added = tree.addPaths more := by
  refine ⟨fun path => mem_paths_ofPaths written, fun w => ?_, ofPaths_eq_iff written,
    fun other hsub hprefix => ?_, fun tree added more htree hperm => ?_⟩
  · exact ⟨Text.splitAt '/' w.toList, Text.intercalate_splitAt '/' _,
      fun _ => Text.not_mem_of_mem_splitAt, rfl⟩
  · have htree : ofPaths other = ofPaths written := by
      refine (ofPaths_eq_iff written other).mpr fun path => and_congr_right fun _ => ⟨?_, ?_⟩
      · rintro ⟨w, hw, hpath⟩
        obtain ⟨w', hw', hle⟩ := hprefix w hw
        exact ⟨w', hw', hpath.trans hle⟩
      · rintro ⟨w, hw, hpath⟩
        exact ⟨w, hsub hw, hpath⟩
    exact ⟨htree, fun reader request => by rw [htree]⟩
  · refine (htree.addPaths added).ext (htree.addPaths more) fun path => ?_
    simp only [htree.mem_paths_addPaths, hperm.mem_iff]

/-- Paths in another order, one of them twice, and with what they lead over. -/
theorem ofPaths_requested_sample :
    ["Children/Parent", "Content"] ⊆ ["Content", " Children ", "/Content/", "Children/Parent"] ∧
      ofPaths ["Content", " Children ", "/Content/", "Children/Parent"] =
        ofPaths ["Children/Parent", "Content"] ∧
      (cons "Children" nil nil).Ordered ∧
      (cons "Children" nil nil).addPaths [["Children", "Parent"], ["Content"]] =
        (cons "Children" nil nil).addPaths [["Content"], ["Children", "Parent"]] := by
  have hsub : ["Children/Parent", "Content"] ⊆
    ["Content", " Children ", "/Content/", "Children/Parent"] := by decide
  have hprefix : ∀ w ∈ ["Content", " Children ", "/Content/", "Children/Parent"],
      ∃ w' ∈ ["Children/Parent", "Content"], segments w <+: segments w' := by decide +kernel
  have htree : (cons "Children" nil nil).Ordered := ⟨by simp [names], trivial, trivial⟩
  obtain ⟨-, -, -, hequal, hadd⟩ := ofPaths_requested ["Children/Parent", "Content"]
  exact ⟨hsub, (hequal _ hsub hprefix).1, htree, hadd _ _ _ htree (.swap _ _ _)⟩

end ExpandTree
end EntityGraph
