import Mathlib.Data.List.Chain
import Mathlib.Data.List.Flatten
import SemanticLayer.Proofs.Collections.Entries
import SemanticLayer.Proofs.JoinGraph.Models

/-!
# Walks through join trees

What a tree lists are its subtrees level by level, each once, and parents before their children.

* `JoinTree.induction`: what holds of a tree if it holds of its children, holds of every tree;
* `breadthFirst_perm`: the subtrees of a tree are itself and those of its children;
* `parent_link_before`: a model is joined after the model that it hangs on;
* `mem_keys_taxonModels`, `read_taxonModels`: taxons are read from models that have them;
* `mem_selectable_prune`: what is cut off brought no needed taxon that the rest lacks;
* `subperm_models_prune`: what is cut off leaves each model as often as before, or less.
-/

namespace SemanticLayer.JoinTree

/-- Induction over a join tree, with the property for every child. -/
@[induction_eliminator]
theorem induction {p : JoinTree → Prop}
    (node : ∀ m taxons children, (∀ c ∈ children, p c) → p ⟨m, taxons, children⟩) : ∀ t, p t :=
  @JoinTree.rec p (fun ts => ∀ t ∈ ts, p t) node (fun _ h => (List.not_mem_nil h).elim)
    (fun _ _ ht hts => List.forall_mem_cons.2 ⟨ht, hts⟩)

variable {t s : JoinTree}

/-! ## Subtrees -/

theorem zipLevels_perm {α : Type} (xss yss : List (List α)) :
    (zipLevels xss yss).flatten.Perm (xss.flatten ++ yss.flatten) := by
  fun_induction zipLevels xss yss with
  | case1 yss => rfl
  | case2 xss _ => rw [List.flatten_nil, List.append_nil]
  | case3 xs xss ys yss ih =>
    simp only [List.flatten_cons, List.append_assoc]
    refine .append_left xs ?_
    calc ys ++ (zipLevels xss yss).flatten
      _ |>.Perm (ys ++ (xss.flatten ++ yss.flatten)) := ih.append_left ys
      _ |>.Perm (xss.flatten ++ (ys ++ yss.flatten)) := List.perm_append_comm_assoc ..

theorem levelsOf_perm (ts : List JoinTree) :
    (levelsOf ts).flatten.Perm (ts.flatMap breadthFirst) := by
  induction ts with
  | nil => rfl
  | cons t ts ih =>
    rw [levelsOf, List.flatMap_cons]
    exact (zipLevels_perm _ _).trans (ih.append_left _)

/-- The subtrees of a tree are itself and those of its children, each once. -/
theorem breadthFirst_perm (t : JoinTree) :
    t.breadthFirst.Perm (t :: t.children.flatMap breadthFirst) := by
  obtain ⟨m, taxons, children⟩ := t
  rw [breadthFirst, levels, List.flatten_cons]
  exact (levelsOf_perm children).cons _

theorem self_mem_breadthFirst (t : JoinTree) : t ∈ t.breadthFirst := mem_breadthFirst.2 (.inl rfl)

theorem models_perm (t : JoinTree) : t.models.Perm (t.model :: t.children.flatMap models) := by
  have each := (breadthFirst_perm t).map (·.model)
  rwa [List.map_cons, List.map_flatMap] at each

theorem mem_models {m : Model} : m ∈ t.models ↔ ∃ s ∈ t.breadthFirst, s.model = m := List.mem_map

theorem model_mem_models (t : JoinTree) : t.model ∈ t.models :=
  mem_models.2 ⟨t, t.self_mem_breadthFirst, rfl⟩

/-- A subtree has no model more often than the tree. -/
theorem subperm_models_of_mem (hs : s ∈ t.breadthFirst) : s.models.Subperm t.models := by
  induction t with
  | node m taxons children ih =>
    rcases mem_breadthFirst.1 hs with rfl | ⟨c, hc, hs⟩
    · exact .refl _
    · have part : c.models.Sublist (children.flatMap models) := by
        rw [List.flatMap_def]
        exact List.sublist_flatten_of_mem (List.mem_map_of_mem hc)
      have all := (models_perm ⟨m, taxons, children⟩).symm.subperm
      exact (ih c hc hs).trans ((part.cons m).subperm.trans all)

/-! ## Parents before children -/

/-- Whether each tree of a level hangs on one of the level before it. -/
def Descends (levels : List (List JoinTree)) : Prop :=
  levels.IsChain fun up down => ∀ s ∈ down, ∃ q ∈ up, s ∈ q.children

theorem Descends.zipLevels {xss yss : List (List JoinTree)} (hx : Descends xss)
    (hy : Descends yss) : Descends (zipLevels xss yss) := by
  unfold Descends at hx hy ⊢
  fun_induction JoinTree.zipLevels xss yss with
  | case1 yss => exact hy
  | case2 xss _ => exact hx
  | case3 xs xss ys yss ih =>
    rw [List.isChain_cons] at hx hy ⊢
    obtain ⟨firstX, hx⟩ := hx
    obtain ⟨firstY, hy⟩ := hy
    refine ⟨?_, ih hx hy⟩
    intro down hdown s hs
    -- the next level is made of the next levels of the two lists
    have next : (∃ zs ∈ xss.head?, s ∈ zs) ∨ ∃ zs ∈ yss.head?, s ∈ zs := by
      cases xss with
      | nil => exact .inr ⟨down, hdown, hs⟩
      | cons xs' xss =>
        cases yss with
        | nil => exact .inl ⟨down, hdown, hs⟩
        | cons ys' yss =>
          cases hdown
          rcases List.mem_append.1 hs with hs | hs
          · exact .inl ⟨xs', rfl, hs⟩
          · exact .inr ⟨ys', rfl, hs⟩
    rcases next with ⟨zs, hzs, hs⟩ | ⟨zs, hzs, hs⟩
    · obtain ⟨q, hq, child⟩ := firstX zs hzs s hs
      exact ⟨q, List.mem_append_left _ hq, child⟩
    · obtain ⟨q, hq, child⟩ := firstY zs hzs s hs
      exact ⟨q, List.mem_append_right _ hq, child⟩

/-- The first level of several trees are the trees themselves. -/
theorem mem_head_levelsOf {ts : List JoinTree} {first : List JoinTree}
    (h : first ∈ (levelsOf ts).head?) (hs : s ∈ first) : s ∈ ts := by
  induction ts generalizing first with
  | nil => cases h
  | cons t ts ih =>
    obtain ⟨m, taxons, children⟩ := t
    rw [levelsOf, levels] at h
    cases hl : levelsOf ts with
    | nil =>
      rw [hl] at h
      cases h
      cases List.mem_singleton.1 hs
      exact List.mem_cons_self ..
    | cons level rest =>
      rw [hl] at h
      cases h
      rcases List.mem_cons.1 hs with rfl | hs
      · exact List.mem_cons_self ..
      · exact List.mem_cons_of_mem _ (ih (hl ▸ rfl) hs)

theorem descends_levels (t : JoinTree) : Descends t.levels := by
  induction t with
  | node m taxons children ih =>
    have below : Descends (levelsOf children) := by
      clear * - ih
      induction children with
      | nil => exact .nil
      | cons c cs rest =>
        obtain ⟨hc, hcs⟩ := List.forall_mem_cons.1 ih
        rw [levelsOf]
        exact hc.zipLevels (rest hcs)
    rw [levels]
    refine List.isChain_cons.2 ⟨?_, below⟩
    intro down hdown s hs
    exact ⟨_, List.mem_singleton_self _, mem_head_levelsOf hdown hs⟩

/-- A tree below the first level comes after the one that it hangs on. -/
theorem Descends.parent_before {levels : List (List JoinTree)} (h : Descends levels)
    {before after : List JoinTree} (hs : levels.flatten = before ++ s :: after) :
    (∃ first ∈ levels.head?, s ∈ first) ∨ ∃ q ∈ before, s ∈ q.children := by
  induction levels generalizing before with
  | nil => simp at hs
  | cons level levels ih =>
    obtain ⟨next, below⟩ := List.isChain_cons.1 h
    have onFirst (head : ∃ first ∈ levels.head?, s ∈ first) : ∃ q ∈ level, s ∈ q.children := by
      obtain ⟨first, hfirst, hs⟩ := head
      exact next first hfirst s hs
    rw [List.flatten_cons] at hs
    rcases List.append_eq_append_iff.1 hs with ⟨rest, rfl, hrest⟩ | ⟨rest, rfl, hrest⟩
    · rcases ih below hrest with head | ⟨q, hq, child⟩
      · obtain ⟨q, hq, child⟩ := onFirst head
        exact .inr ⟨q, List.mem_append_left _ hq, child⟩
      · exact .inr ⟨q, List.mem_append_right _ hq, child⟩
    · cases rest with
      | nil =>
        rw [List.append_nil] at onFirst
        have now : levels.flatten = [] ++ s :: after := hrest.symm
        rcases ih below now with head | ⟨q, hq, _⟩
        · exact .inr (onFirst head)
        · exact (List.not_mem_nil hq).elim
      | cons r rest =>
        cases hrest
        exact .inl ⟨_, rfl, List.mem_append_right _ (List.mem_cons_self ..)⟩

theorem parent_before {before after : List JoinTree}
    (hs : t.breadthFirst = before ++ s :: after) : s = t ∨ ∃ q ∈ before, s ∈ q.children := by
  rcases (descends_levels t).parent_before hs with ⟨first, hfirst, hs⟩ | above
  · obtain ⟨m, taxons, children⟩ := t
    rw [levels] at hfirst
    cases hfirst
    exact .inl (List.mem_singleton.1 hs)
  · exact .inr above

/-- A member of a list of lists put together comes from one of them, after all before it. -/
theorem exists_split_of_flatMap {α β : Type} {f : α → List β} {xs : List α}
    {before after : List β} {y : β} (h : xs.flatMap f = before ++ y :: after) :
    ∃ ls x rs, xs = ls ++ x :: rs ∧ y ∈ f x ∧ ∀ l ∈ ls, ∀ z ∈ f l, z ∈ before := by
  induction xs generalizing before with
  | nil => simp at h
  | cons x xs ih =>
    have skip (rest : List β) (hbefore : before = f x ++ rest)
        (hrest : xs.flatMap f = rest ++ y :: after) :
        ∃ ls x' rs, x :: xs = ls ++ x' :: rs ∧ y ∈ f x' ∧ ∀ l ∈ ls, ∀ z ∈ f l, z ∈ before := by
      obtain ⟨ls, x', rs, rfl, hy, earlier⟩ := ih hrest
      refine ⟨x :: ls, x', rs, rfl, hy, List.forall_mem_cons.2 ⟨?_, ?_⟩⟩
      · intro z hz
        exact hbefore ▸ List.mem_append_left _ hz
      · intro l hl z hz
        exact hbefore ▸ List.mem_append_right _ (earlier l hl z hz)
    rw [List.flatMap_cons] at h
    rcases List.append_eq_append_iff.1 h with ⟨rest, hbefore, hrest⟩ | ⟨rest, own, hrest⟩
    · exact skip rest hbefore hrest
    · cases rest with
      | nil => exact skip [] (by simpa using own.symm) hrest.symm
      | cons w rest =>
        cases hrest
        have hy : y ∈ f x := own ▸ List.mem_append_right _ (List.mem_cons_self ..)
        exact ⟨[], x, xs, rfl, hy, fun _ hl => (List.not_mem_nil hl).elim⟩

/-- The model that another is joined to is the root, or was joined before. -/
theorem parent_link_before {before after : List (Model × Model)} {parent child : Model}
    (h : t.links = before ++ (parent, child) :: after) :
    parent = t.model ∨ ∃ above, (above, parent) ∈ before := by
  obtain ⟨ss₁, s, ss₂, order, own, earlier⟩ := exists_split_of_flatMap h
  obtain ⟨c, _, e⟩ := List.mem_map.1 own
  cases e
  rcases parent_before order with rfl | ⟨q, hq, child⟩
  · exact .inl rfl
  · exact .inr ⟨q.model, earlier q hq _ (List.mem_map_of_mem child)⟩

/-! ## Taxons -/

variable {taxon : String} {m : Model}

theorem mem_selectableOf {ts : List JoinTree} :
    taxon ∈ selectableOf ts ↔ ∃ t ∈ ts, taxon ∈ t.selectable := by
  induction ts with
  | nil => simp [selectableOf, SortedSet.not_mem_empty]
  | cons t ts ih => rw [selectableOf, SortedSet.mem_union, ih, List.exists_mem_cons_iff]

theorem mem_selectable :
    taxon ∈ t.selectable ↔ taxon ∈ t.taxons ∨ ∃ c ∈ t.children, taxon ∈ c.selectable := by
  obtain ⟨m, taxons, children⟩ := t
  rw [selectable, SortedSet.mem_union, mem_selectableOf]

/-- What can be selected are the taxons of all subtrees. -/
theorem mem_selectable_iff : taxon ∈ t.selectable ↔ ∃ s ∈ t.breadthFirst, taxon ∈ s.taxons := by
  induction t with
  | node m taxons children ih =>
    rw [mem_selectable]
    constructor
    · rintro (own | ⟨c, hc, below⟩)
      · exact ⟨_, self_mem_breadthFirst _, own⟩
      · obtain ⟨s, hs, has⟩ := (ih c hc).1 below
        exact ⟨s, mem_breadthFirst.2 (.inr ⟨c, hc, hs⟩), has⟩
    · rintro ⟨s, hs, has⟩
      rcases mem_breadthFirst.1 hs with rfl | ⟨c, hc, hs⟩
      · exact .inl has
      · exact .inr ⟨c, hc, (ih c hc).2 ⟨s, hs, has⟩⟩

/-- The entries for taxons that are read from a model unless they have one. -/
theorem mem_keys_foldl_insertIfNew {read : SortedMap String Model} {taxons : List String} :
    taxon ∈ (taxons.foldl (·.insertIfNew · m) read).keys ↔ taxon ∈ taxons ∨ taxon ∈ read.keys := by
  induction taxons generalizing read with
  | nil => simp
  | cons a taxons ih =>
    rw [List.foldl_cons, ih, SortedMap.mem_keys_insertIfNew, List.mem_cons]
    grind

theorem mem_foldl_insertIfNew {read : SortedMap String Model} {taxons : List String} {n : Model}
    (h : (taxon, m) ∈ (taxons.foldl (·.insertIfNew · n) read).toList) :
    m = n ∧ taxon ∈ taxons ∨ (taxon, m) ∈ read.toList := by
  induction taxons generalizing read with
  | nil => exact .inr h
  | cons a taxons ih =>
    rcases ih h with ⟨same, later⟩ | h
    · exact .inl ⟨same, List.mem_cons_of_mem _ later⟩
    · rcases SortedMap.mem_toList_insertIfNew.1 h with h | ⟨_, rfl, rfl⟩
      · exact .inr h
      · exact .inl ⟨rfl, List.mem_cons_self ..⟩

/-- The taxons that are read are those that the tree can select. -/
theorem mem_keys_taxonModels : taxon ∈ t.taxonModels.keys ↔ taxon ∈ t.selectable := by
  have each (ss : List JoinTree) (read : SortedMap String Model) :
      taxon ∈
          (ss.foldl (fun ms s => s.taxons.toList.foldl (·.insertIfNew · s.model) ms) read).keys ↔
        (∃ s ∈ ss, taxon ∈ s.taxons) ∨ taxon ∈ read.keys := by
    induction ss generalizing read with
    | nil => simp
    | cons s ss ih =>
      rw [List.foldl_cons, ih, mem_keys_foldl_insertIfNew, List.exists_mem_cons_iff,
        SortedSet.mem_def]
      grind
  rw [taxonModels, each, mem_selectable_iff]
  exact or_iff_left (by simp [SortedMap.keys, SortedMap.empty])

/-- A taxon is read from the model of a subtree that has it. -/
theorem read_taxonModels (h : (taxon, m) ∈ t.taxonModels.toList) :
    ∃ s ∈ t.breadthFirst, s.model = m ∧ taxon ∈ s.taxons := by
  have each (ss : List JoinTree) (read : SortedMap String Model)
      (h : (taxon, m) ∈
        (ss.foldl (fun ms s => s.taxons.toList.foldl (·.insertIfNew · s.model) ms) read).toList) :
      (∃ s ∈ ss, s.model = m ∧ taxon ∈ s.taxons) ∨ (taxon, m) ∈ read.toList := by
    induction ss generalizing read with
    | nil => exact .inr h
    | cons s ss ih =>
      rcases ih _ h with ⟨s', hs', found⟩ | h
      · exact .inl ⟨s', List.mem_cons_of_mem _ hs', found⟩
      · rcases mem_foldl_insertIfNew h with ⟨same, own⟩ | before
        · exact .inl ⟨s, List.mem_cons_self .., same.symm, own⟩
        · exact .inr before
  exact (each t.breadthFirst .empty h).resolve_right (List.not_mem_nil)

/-! ## Pruning -/

/-- An offered taxon was brought before, or comes with a tree that is kept. -/
theorem exists_keepUseful (brought : NameSet) {os : List Offer} {o : Offer} (ho : o ∈ os)
    (h : taxon ∈ o.taxons) :
    taxon ∈ brought ∨ ∃ kept ∈ os, taxon ∈ kept.taxons ∧ kept.tree ∈ keepUseful brought os := by
  induction os generalizing brought with
  | nil => cases ho
  | cons first os ih =>
    rw [keepUseful]
    split
    · rename_i useless
      rcases List.mem_cons.1 ho with rfl | ho
      · have known := List.all_eq_true.1 useless taxon h
        exact .inl (SortedSet.contains_iff.1 known)
      · rcases ih brought ho with known | ⟨kept, hkept, has, stays⟩
        · exact .inl known
        · exact .inr ⟨kept, List.mem_cons_of_mem _ hkept, has, stays⟩
    · have own (has : taxon ∈ first.taxons) : ∃ kept ∈ first :: os, taxon ∈ kept.taxons ∧
          kept.tree ∈ first.tree :: keepUseful (brought.union first.taxons) os :=
        ⟨first, List.mem_cons_self .., has, List.mem_cons_self ..⟩
      rcases List.mem_cons.1 ho with rfl | ho
      · exact .inr (own h)
      · rcases ih (brought.union first.taxons) ho with known | ⟨kept, hkept, has, stays⟩
        · rcases SortedSet.mem_union.1 known with known | has
          · exact .inl known
          · exact .inr (own has)
        · exact .inr ⟨kept, List.mem_cons_of_mem _ hkept, has, List.mem_cons_of_mem _ stays⟩

theorem keepUseful_sublist (brought : NameSet) (os : List Offer) :
    (keepUseful brought os).Sublist (os.map (·.tree)) := by
  induction os generalizing brought with
  | nil => exact .slnil
  | cons o os ih =>
    rw [keepUseful]
    split
    · exact (ih brought).cons _
    · exact (ih _).cons_cons _

/-- The trees that pruning keeps are among the pruned children. -/
theorem children_prune_subperm (t : JoinTree) (needed : NameSet) :
    (t.prune needed).children.Subperm (t.children.map (·.prune (needed.diff t.taxons))) := by
  obtain ⟨m, taxons, children⟩ := t
  rw [prune]
  have kept := (keepUseful_sublist .empty
    ((offersOf (needed.diff taxons) children).mergeSort fun a b => b.taxons.size ≤ a.taxons.size))
  have order := (List.mergeSort_perm (offersOf (needed.diff taxons) children)
    fun a b => b.taxons.size ≤ a.taxons.size).map (·.tree)
  have offered : (offersOf (needed.diff taxons) children).map (·.tree) =
      children.map (·.prune (needed.diff taxons)) := by
    rw [offersOf_eq, List.map_map]
    rfl
  rw [offered] at order
  exact kept.subperm.trans order.subperm

/-- Pruning keeps each needed taxon that the tree has. -/
theorem mem_selectable_prune {needed : NameSet} (hn : taxon ∈ needed)
    (ht : taxon ∈ t.selectable) : taxon ∈ (t.prune needed).selectable := by
  induction t generalizing needed with
  | node m taxons children ih =>
    rw [mem_selectable] at ht ⊢
    rw [prune]
    by_cases own : taxon ∈ taxons
    · exact .inl own
    obtain ⟨c, hc, below⟩ := ht.resolve_left own
    have missing : taxon ∈ needed.diff taxons := SortedSet.mem_diff.2 ⟨hn, own⟩
    have offered :
        (⟨c.selectable.inter (needed.diff taxons), c.prune (needed.diff taxons)⟩ : Offer) ∈
          (offersOf (needed.diff taxons) children).mergeSort
            fun a b => b.taxons.size ≤ a.taxons.size := by
      rw [List.mem_mergeSort, offersOf_eq]
      exact List.mem_map_of_mem hc
    have brings : taxon ∈ c.selectable.inter (needed.diff taxons) :=
      SortedSet.mem_filter.2 ⟨below, SortedSet.contains_iff.2 missing⟩
    rcases exists_keepUseful .empty offered brings with known | ⟨kept, hk, has, stays⟩
    · exact absurd known (SortedSet.not_mem_empty _)
    · rw [List.mem_mergeSort, offersOf_eq] at hk
      obtain ⟨c', hc', rfl⟩ := List.mem_map.1 hk
      have selected := (SortedSet.mem_filter.1 has).1
      exact .inr ⟨_, stays, ih c' hc' missing selected⟩

/-- Pruning leaves each model as often in the tree as it was, or less. -/
theorem subperm_models_prune (t : JoinTree) (needed : NameSet) :
    (t.prune needed).models.Subperm t.models := by
  induction t generalizing needed with
  | node m taxons children ih =>
    have below : (((⟨m, taxons, children⟩ : JoinTree).prune needed).children.flatMap models).Subperm
        (children.flatMap models) := by
      obtain ⟨kept, order, sub⟩ := children_prune_subperm ⟨m, taxons, children⟩ needed
      refine (order.flatMap_right models).symm.subperm.trans
        ((sub.flatMap models).subperm.trans ?_)
      rw [List.flatMap_map]
      clear * - ih
      induction children with
      | nil => exact .refl _
      | cons c cs rest =>
        obtain ⟨hc, hcs⟩ := List.forall_mem_cons.1 ih
        exact (hc _).append (rest hcs)
    refine (models_perm _).subperm.trans (.trans ?_ (models_perm _).symm.subperm)
    rw [model_prune]
    exact (List.subperm_cons m).2 below

end SemanticLayer.JoinTree
