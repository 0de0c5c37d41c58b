import Mathlib
import SemanticLayer.Proofs.JoinGraph.Multiplicity

/-!
# Leaves of join trees

A join is of use if something is read from the model that is joined or from a model behind it.
Pruning looks along the way from the root to a subtree and at the subtrees beside it, and taxons are
read from the nearest model in any branch.

* `JoinTree.Leads`: a subtree with the trees that it hangs on and those that are kept beside it;
* `get?_taxonModels_eq_some_iff`: a taxon is read from the first model that has it;
* `exists_isNew_prune`: what each subtree brings that is left after pruning;
* `JoinGraph.findTree_readsLeaves_iff`: when every leaf of a tree that is found is read from.
-/

namespace SemanticLayer

namespace JoinTree

variable {t s q : JoinTree} {taxon : String} {m : Model}

/-! ## Where taxons are read -/

theorem get?_foldl_insertIfNew {read : SortedMap String Model} {taxons : List String} :
    (taxons.foldl (·.insertIfNew · m) read).get? taxon =
      (read.get? taxon).or (if taxon ∈ taxons then some m else none) := by
  induction taxons generalizing read with
  | nil => rw [List.foldl_nil, if_neg List.not_mem_nil, Option.or_none]
  | cons a taxons ih =>
    rw [List.foldl_cons, ih, SortedMap.get?_insertIfNew, Option.or_assoc]
    congr 1
    by_cases first : a = taxon
    · subst first
      rw [if_pos rfl, if_pos (List.mem_cons_self ..), Option.some_or]
    · have later : taxon ∈ a :: taxons ↔ taxon ∈ taxons := by
        rw [List.mem_cons]
        exact or_iff_right (Ne.symm first)
      rw [if_neg first, Option.none_or]
      simp only [later]

/-- A taxon is read from the first subtree that has it. -/
theorem get?_taxonModels :
    t.taxonModels.get? taxon = (t.breadthFirst.find? (taxon ∈ ·.taxons)).map (·.model) := by
  have each (ss : List JoinTree) (read : SortedMap String Model) :
      (ss.foldl (fun ms s => s.taxons.toList.foldl (·.insertIfNew · s.model) ms) read).get? taxon =
        (read.get? taxon).or ((ss.find? (taxon ∈ ·.taxons)).map (·.model)) := by
    induction ss generalizing read with
    | nil => exact (Option.or_none).symm
    | cons s ss ih =>
      rw [List.foldl_cons, ih, get?_foldl_insertIfNew, Option.or_assoc]
      congr 1
      by_cases own : taxon ∈ s.taxons
      · rw [if_pos (SortedSet.mem_def.1 own), List.find?_cons_of_pos (by simpa), Option.some_or]
        rfl
      · rw [if_neg fun has => own (SortedSet.mem_def.2 has), List.find?_cons_of_neg (by simpa),
          Option.none_or]
  exact (each t.breadthFirst .empty).trans (Option.none_or)

/-- A taxon is read from a model exactly if its subtree is the first one that has the taxon. -/
theorem get?_taxonModels_eq_some_iff :
    t.taxonModels.get? taxon = some m ↔ ∃ before s after,
      t.breadthFirst = before ++ s :: after ∧ s.model = m ∧ taxon ∈ s.taxons ∧
        ∀ q ∈ before, taxon ∉ q.taxons := by
  rw [get?_taxonModels, Option.map_eq_some_iff]
  constructor
  · rintro ⟨s, found, same⟩
    obtain ⟨has, before, after, order, lack⟩ := List.find?_eq_some_iff_append.1 found
    refine ⟨before, s, after, order, same, of_decide_eq_true has, ?_⟩
    intro q hq
    simpa using lack q hq
  · rintro ⟨before, s, after, order, same, has, lack⟩
    refine ⟨s, List.find?_eq_some_iff_append.2 ⟨decide_eq_true has, before, after, order, ?_⟩, same⟩
    intro q hq
    simpa using lack q hq

/-! ## The way to a subtree -/

/-- Whether a subtree is reached from a tree by way of others, where it stands after some that are
kept beside it. -/
inductive Leads : JoinTree → List JoinTree → List JoinTree → JoinTree → Prop
  | child {t c : JoinTree} {beside after : List JoinTree} (h : t.children = beside ++ c :: after) :
      Leads t [t] beside c
  | down {t c s : JoinTree} {up beside : List JoinTree} (h : c ∈ t.children)
      (below : Leads c up beside s) : Leads t (t :: up) beside s

theorem Leads.mem_breadthFirst {up beside : List JoinTree} (h : t.Leads up beside s) :
    s ∈ t.breadthFirst := by
  induction h with
  | child h =>
    refine JoinTree.mem_breadthFirst.2 (.inr ⟨_, ?_, self_mem_breadthFirst _⟩)
    rw [h]
    exact List.mem_append_right _ (List.mem_cons_self ..)
  | down h _ ih => exact JoinTree.mem_breadthFirst.2 (.inr ⟨_, h, ih⟩)

/-- Every subtree is reached from the root. -/
theorem exists_leads (hs : s ∈ t.breadthFirst) (below : s ≠ t) :
    ∃ up beside, t.Leads up beside s := by
  induction t with
  | node m taxons children ih =>
    obtain ⟨c, hc, hs⟩ := (mem_breadthFirst.1 hs).resolve_left below
    by_cases own : s = c
    · obtain ⟨beside, after, h⟩ := List.append_of_mem hc
      exact ⟨_, beside, .child (own ▸ h)⟩
    · obtain ⟨up, beside, leads⟩ := ih c hc hs own
      exact ⟨_, beside, .down hc leads⟩

/-! ## What pruning leaves -/

/-- Each tree that is kept brings something that neither was brought before nor comes with a tree
kept before it. -/
theorem exists_brought_keepUseful {brought : NameSet} {os : List Offer} {c : JoinTree}
    {before after : List JoinTree} (h : keepUseful brought os = before ++ c :: after) :
    ∃ o ∈ os, o.tree = c ∧ ∃ taxon ∈ o.taxons, taxon ∉ brought ∧
      ∀ b ∈ before, ∃ k ∈ os, k.tree = b ∧ taxon ∉ k.taxons := by
  induction os generalizing brought before with
  | nil => cases before <;> cases h
  | cons o os ih =>
    rw [keepUseful] at h
    split at h
    · obtain ⟨o', ho, same, taxon, has, new, earlier⟩ := ih h
      refine ⟨o', List.mem_cons_of_mem _ ho, same, taxon, has, new, ?_⟩
      intro b hb
      obtain ⟨k, hk, found⟩ := earlier b hb
      exact ⟨k, List.mem_cons_of_mem _ hk, found⟩
    · rename_i useful
      cases before with
      | nil =>
        cases h
        have some : ∃ taxon ∈ o.taxons, taxon ∉ brought := by
          by_contra none
          push Not at none
          exact useful (List.all_eq_true.2 fun x hx => SortedSet.contains_iff.2 (none x hx))
        obtain ⟨taxon, has, new⟩ := some
        exact ⟨o, List.mem_cons_self .., rfl, taxon, has, new, List.forall_mem_nil _⟩
      | cons b before =>
        rw [List.cons_append, List.cons.injEq] at h
        obtain ⟨first, h⟩ := h
        obtain ⟨o', ho, same, taxon, has, new, earlier⟩ := ih h
        rw [SortedSet.mem_union, not_or] at new
        refine ⟨o', List.mem_cons_of_mem _ ho, same, taxon, has, new.1, ?_⟩
        refine List.forall_mem_cons.2 ⟨⟨o, List.mem_cons_self .., first, new.2⟩, ?_⟩
        intro b hb
        obtain ⟨k, hk, found⟩ := earlier b hb
        exact ⟨k, List.mem_cons_of_mem _ hk, found⟩

/-- What is left after pruning brings nothing else. -/
theorem mem_selectable_of_prune {needed : NameSet} (h : taxon ∈ (t.prune needed).selectable) :
    taxon ∈ t.selectable := by
  induction t generalizing needed with
  | node m taxons children ih =>
    rw [mem_selectable, taxons_prune] at h
    rw [mem_selectable]
    rcases h with own | ⟨c, kept, below⟩
    · exact .inl own
    · obtain ⟨child, hchild, rfl⟩ := exists_child_of_prune kept
      exact .inr ⟨child, hchild, ih child hchild below⟩

/-- Whether a taxon is new where a subtree stands: no tree that it hangs on has it, and no tree kept
beside it brings it. -/
structure IsNew (taxon : String) (up beside : List JoinTree) : Prop where
  above : ∀ q ∈ up, taxon ∉ q.taxons
  beside : ∀ b ∈ beside, taxon ∉ b.selectable

/-- Each subtree that pruning leaves brings a needed taxon that is new where it stands. -/
theorem exists_isNew_prune {needed : NameSet} {up beside : List JoinTree}
    (h : (t.prune needed).Leads up beside s) :
    ∃ taxon ∈ s.selectable, taxon ∈ needed ∧ IsNew taxon up beside := by
  induction t generalizing needed up with
  | node m taxons children ih =>
    generalize hp : (⟨m, taxons, children⟩ : JoinTree).prune needed = p at h
    have own : p.taxons = taxons := by
      rw [← hp, prune]
    have kept : p.children = keepUseful .empty ((offersOf (needed.diff taxons) children).mergeSort
        fun a b => b.taxons.size ≤ a.taxons.size) := by
      rw [← hp, prune]
    -- each kept tree is a pruned child, offered with what it has of the missing taxons
    have offered (o : Offer) (ho : o ∈ (offersOf (needed.diff taxons) children).mergeSort
        fun a b => b.taxons.size ≤ a.taxons.size) :
        ∃ c ∈ children, o = ⟨c.selectable.inter (needed.diff taxons), c.prune (needed.diff taxons)⟩ := by
      rw [List.mem_mergeSort, offersOf_eq] at ho
      obtain ⟨c, hc, same⟩ := List.mem_map.1 ho
      exact ⟨c, hc, same.symm⟩
    cases h with
    | child split =>
      rw [kept] at split
      obtain ⟨o, ho, rfl, taxon, has, _, earlier⟩ := exists_brought_keepUseful split
      obtain ⟨c, _, rfl⟩ := offered o ho
      obtain ⟨below, missing⟩ := SortedSet.mem_filter.1 has
      rw [SortedSet.contains_iff] at missing
      obtain ⟨need, lacks⟩ := SortedSet.mem_diff.1 missing
      refine ⟨taxon, mem_selectable_prune missing below, need, ?_, ?_⟩
      · exact List.forall_mem_singleton.2 (own ▸ lacks)
      · intro b hb brings
        obtain ⟨k, hk, rfl, without⟩ := earlier b hb
        obtain ⟨d, _, rfl⟩ := offered k hk
        refine without (SortedSet.mem_filter.2 ⟨?_, SortedSet.contains_iff.2 missing⟩)
        exact mem_selectable_of_prune brings
    | down stays below =>
      rw [kept] at stays
      obtain ⟨o, ho, rfl⟩ := mem_keepUseful stays
      obtain ⟨c, hc, rfl⟩ := offered o ho
      obtain ⟨taxon, has, missing, new⟩ := ih c hc below
      obtain ⟨need, lacks⟩ := SortedSet.mem_diff.1 missing
      exact ⟨taxon, has, need, List.forall_mem_cons.2 ⟨own ▸ lacks, new.above⟩, new.beside⟩

/-! ## Leaves -/

/-- Whether no subtree nearer to the root than one of them has a taxon. -/
def IsNearest (t : JoinTree) (taxon : String) (s : JoinTree) : Prop :=
  ∃ before after, t.breadthFirst = before ++ s :: after ∧ ∀ q ∈ before, taxon ∉ q.taxons

/-- Whether some taxon is read from each model that no other is joined to. -/
def ReadsLeaves (t : JoinTree) (wanted : NameSet) : Prop :=
  ∀ s ∈ t.breadthFirst, s ≠ t → s.children = [] →
    ∃ taxon ∈ wanted, t.taxonModels.get? taxon = some s.model

theorem get?_taxonModels_of_nearest (h : t.IsNearest taxon s) (has : taxon ∈ s.taxons) :
    t.taxonModels.get? taxon = some s.model := by
  obtain ⟨before, after, order, lack⟩ := h
  exact get?_taxonModels_eq_some_iff.2 ⟨before, s, after, order, rfl, has, lack⟩

/-- Where models differ by their names, a taxon is read from the subtree that it is nearest in. -/
theorem isNearest_of_get?_taxonModels (distinct : (t.models.map (·.name)).Nodup)
    (hs : s ∈ t.breadthFirst) (h : t.taxonModels.get? taxon = some s.model) :
    taxon ∈ s.taxons ∧ t.IsNearest taxon s := by
  obtain ⟨before, q, after, order, same, has, lack⟩ := get?_taxonModels_eq_some_iff.1 h
  have hq : q ∈ t.breadthFirst := by
    rw [order]
    exact List.mem_append_right _ (List.mem_cons_self ..)
  rw [models, List.map_map] at distinct
  obtain rfl := List.inj_on_of_nodup_map distinct hq hs (congrArg Model.name same)
  exact ⟨has, before, after, order, lack⟩

end JoinTree

open JoinTree (Leads IsNew)

namespace JoinGraph

variable {g : JoinGraph} {dataSources wanted : NameSet} {ms : List Model} {t : JoinTree}

/-- Something is read from every leaf of a tree that is found exactly if each leaf has a taxon that
no model nearer to the root has.  Each subtree brings a wanted taxon that is new where it stands; if
none is read from a leaf, a nearer model of another branch has the one that the leaf brings. -/
theorem findTree_readsLeaves_iff (hb : build dataSources ms = .ok g)
    (ht : g.findTree wanted = .ok t) :
    (t.ReadsLeaves wanted ↔ ∀ s ∈ t.breadthFirst, s ≠ t → s.children = [] →
      ∃ taxon ∈ s.taxons, t.IsNearest taxon s) ∧
    ∀ s ∈ t.breadthFirst, s ≠ t → ∃ up beside, t.Leads up beside s ∧
      ∃ taxon ∈ s.selectable, taxon ∈ wanted ∧ IsNew taxon up beside ∧
        (s.children = [] → t.IsNearest taxon s ∨ ∃ before q after,
          t.breadthFirst = before ++ s :: after ∧ q ∈ before ∧ q ∉ up ∧
            (∀ b ∈ beside, q ∉ b.breadthFirst) ∧ taxon ∈ q.taxons) := by
  have sound := findTree_isSound hb ht
  constructor
  · refine forall₄_congr fun s hs below leaf => ?_
    constructor
    · rintro ⟨taxon, _, read⟩
      have nearest := JoinTree.isNearest_of_get?_taxonModels sound.distinct hs read
      exact ⟨taxon, nearest⟩
    · rintro ⟨taxon, has, nearest⟩
      have want := ((sound.taxons s hs taxon).1 has).1
      exact ⟨taxon, want, JoinTree.get?_taxonModels_of_nearest nearest has⟩
  · intro s hs below
    obtain ⟨up, beside, leads⟩ := JoinTree.exists_leads hs below
    obtain ⟨root, _, rfl, _⟩ := findTree_eq_ok ht
    obtain ⟨taxon, brings, want, new⟩ := JoinTree.exists_isNew_prune leads
    refine ⟨up, beside, leads, taxon, brings, want, new, fun leaf => ?_⟩
    obtain ⟨before, after, order⟩ := List.append_of_mem hs
    by_cases nearer : ∃ q ∈ before, taxon ∈ q.taxons
    · obtain ⟨q, hq, has⟩ := nearer
      refine .inr ⟨before, q, after, order, hq, fun above => new.above q above has, ?_, has⟩
      intro b hb within
      exact new.beside b hb (JoinTree.mem_selectable_iff.2 ⟨q, within, has⟩)
    · exact .inl ⟨before, after, order, fun q hq has => nearer ⟨q, hq, has⟩⟩

end JoinGraph

/-- Ads with their accounts and campaigns, and the owners of campaigns.  Both accounts and owners
have a currency. -/
def ownedCampaigns : List Model :=
  let join (kind : Sql.JoinKind) (target taxon : String) : ModelJoin :=
    ⟨kind, .manyToOne, none, target, [taxon]⟩
  [.ofTaxons "accounts" ["account_id", "currency", "name"] [],
    .ofTaxons "campaigns" ["campaign_id", "owner_id", "budget"] [join .inner "owners" "owner_id"],
    .ofTaxons "ads" ["account_id", "campaign_id", "spend"]
      [join .left "accounts" "account_id", join .left "campaigns" "campaign_id"],
    .ofTaxons "owners" ["owner_id", "currency"] []]

/-- Without the currency, no owners are joined. -/
theorem JoinGraph.findTree_readsLeaves_campaigns :
    ∃ g t, build (.ofList ["fb"]) ownedCampaigns = .ok g ∧
      g.findTree (.ofList ["budget", "name", "spend"]) = .ok t ∧
      t.models.map (·.name) = ["ads", "campaigns", "accounts"] ∧
      (t.ReadsLeaves (.ofList ["budget", "name", "spend"]) ↔ ∀ s ∈ t.breadthFirst, s ≠ t →
        s.children = [] → ∃ taxon ∈ s.taxons, t.IsNearest taxon s) := by
  obtain ⟨g, t, hg, ht, names⟩ := exists_tree_of_any (.ofList ["fb"]) ownedCampaigns
    (.ofList ["budget", "name", "spend"])
    (p := fun t => t.models.map (·.name) = ["ads", "campaigns", "accounts"]) (by cbv)
  exact ⟨g, t, hg, ht, of_decide_eq_true names, (findTree_readsLeaves_iff hg ht).1⟩

def ownedWanted : NameSet := .ofList ["budget", "currency", "name", "spend"]

/-- Owners stay in the tree, since campaigns lack a currency, which is read from the accounts. -/
theorem JoinGraph.findTree_not_readsLeaves_owners :
    ∃ g t, build (.ofList ["fb"]) ownedCampaigns = .ok g ∧ g.findTree ownedWanted = .ok t ∧
      ¬ t.ReadsLeaves ownedWanted := by
  obtain ⟨g, t, hg, ht, idle⟩ := exists_tree_of_any (.ofList ["fb"]) ownedCampaigns ownedWanted
    (p := fun t => t.breadthFirst.any fun s =>
      s.model.name ≠ t.model.name && s.children.isEmpty &&
        ownedWanted.toList.all fun taxon =>
          (t.taxonModels.get? taxon).all fun m => m.name ≠ s.model.name) (by cbv)
  obtain ⟨s, hs, idle⟩ := List.any_eq_true.1 idle
  obtain ⟨leaf, idle⟩ := Bool.and_eq_true_iff.1 idle
  obtain ⟨below, leaf⟩ := Bool.and_eq_true_iff.1 leaf
  refine ⟨g, t, hg, ht, fun reads => ?_⟩
  have other : s ≠ t := fun same => of_decide_eq_true below (congrArg (·.model.name) same)
  obtain ⟨taxon, want, read⟩ := reads s hs other (List.isEmpty_iff.1 leaf)
  have apart := List.all_eq_true.1 idle taxon want
  rw [read] at apart
  exact of_decide_eq_true apart rfl

end SemanticLayer
