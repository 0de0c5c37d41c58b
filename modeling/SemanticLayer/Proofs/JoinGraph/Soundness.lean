import SemanticLayer.Proofs.Formula.Failures
import SemanticLayer.Proofs.JoinGraph.Walks

/-!
# Soundness of join trees

A join tree that is found reads exactly the wanted taxons, from models that have them, over joins
that the graph has and that cannot multiply rows.

* `IsGrown`: what each node of a tree in a search is like, before and after pruning;
* `IsSound`: what a tree that answers a search is like;
* `findTree_isSound`: every tree that is found is sound.
-/

namespace SemanticLayer

namespace JoinTree

/-- Whether each node of a tree has its model's share of the wanted taxons, and hangs on a model
that it is a neighbour of. -/
inductive IsGrown (g : JoinGraph) (wanted : NameSet) : JoinTree → Prop
  | node {m : Model} {children : List JoinTree} (near : ∀ c ∈ children, c.model ∈ g.neighbours m)
      (hc : ∀ c ∈ children, IsGrown g wanted c) :
      IsGrown g wanted ⟨m, JoinGraph.wantedTaxons wanted m, children⟩

variable {g : JoinGraph} {wanted : NameSet} {t s : JoinTree} {m : Model}

namespace IsGrown

theorem taxons (h : t.IsGrown g wanted) : t.taxons = JoinGraph.wantedTaxons wanted t.model := by
  cases h with
  | node _ _ => rfl

theorem near (h : t.IsGrown g wanted) : ∀ c ∈ t.children, c.model ∈ g.neighbours t.model := by
  cases h with
  | node near _ => exact near

theorem of_mem_breadthFirst (h : t.IsGrown g wanted) (hs : s ∈ t.breadthFirst) :
    s.IsGrown g wanted := by
  induction h with
  | node near hc ih =>
    rcases mem_breadthFirst.1 hs with rfl | ⟨c, hc', hs⟩
    · exact .node near hc
    · exact ih c hc' hs

theorem of_children (taxons : t.taxons = JoinGraph.wantedTaxons wanted t.model)
    (near : ∀ c ∈ t.children, c.model ∈ g.neighbours t.model)
    (hc : ∀ c ∈ t.children, c.IsGrown g wanted) : t.IsGrown g wanted := by
  obtain ⟨m, share, children⟩ := t
  obtain rfl : share = JoinGraph.wantedTaxons wanted m := taxons
  exact .node near hc

/-- What is cut off leaves each node as it was. -/
theorem prune (h : t.IsGrown g wanted) (needed : NameSet) : (t.prune needed).IsGrown g wanted := by
  induction h generalizing needed with
  | @node m children near hc ih =>
    refine .of_children ?_ ?_ ?_
    · rw [taxons_prune, model_prune]
    · intro c kept
      obtain ⟨child, hchild, rfl⟩ := exists_child_of_prune kept
      rw [model_prune, model_prune]
      exact near child hchild
    · intro c kept
      obtain ⟨child, hchild, rfl⟩ := exists_child_of_prune kept
      exact ih child hchild _

theorem neighbour_of_link (h : t.IsGrown g wanted) {parent child : Model}
    (hl : (parent, child) ∈ t.links) : child ∈ g.neighbours parent := by
  obtain ⟨s, hs, hl⟩ := List.mem_flatMap.1 hl
  obtain ⟨c, hc, e⟩ := List.mem_map.1 hl
  cases e
  exact (h.of_mem_breadthFirst hs).near c hc

end IsGrown

/-- Whether a join tree answers a search for taxons in a graph. -/
structure IsSound (t : JoinTree) (g : JoinGraph) (wanted : NameSet) : Prop where
  /-- The taxons that are read are the wanted ones. -/
  reads : t.taxonModels.keySet = wanted
  /-- Each is read from a model of the tree that has it. -/
  readFrom : ∀ taxon m, t.taxonModels.get? taxon = some m → m ∈ t.models ∧ m.hasTaxon taxon = true
  /-- A node has those of the wanted taxons that its model has. -/
  taxons : ∀ s ∈ t.breadthFirst, ∀ taxon,
    taxon ∈ s.taxons ↔ taxon ∈ wanted ∧ s.model.hasTaxon taxon = true
  models : ∀ m ∈ t.models, m ∈ g.models
  /-- A node hangs on its parent by an edge that cannot multiply rows. -/
  edges : ∀ parent child, (parent, child) ∈ t.links →
    ∃ e, g.edge? parent.name child.name = some e ∧ e.relationship.causesFanout = false
  /-- No model stands in the tree twice. -/
  distinct : (t.models.map (·.name)).Nodup
  /-- All models with times have the same granularity. -/
  granularity : ∀ m ∈ t.models, ∀ n ∈ t.models, ∀ h k,
    m.granularity? = some h → n.granularity? = some k → h = k
  /-- No join lacks its edge. -/
  joined : ∀ source target, t.joins g ≠ .error (.defect (.noJoin source target))
  /-- A join can fail only by the formula of a taxon that is joined on. -/
  fails : FailsOfFormula (t.joins g)
  /-- The joins are those of the links, in their order. -/
  joins : ∀ js, t.joins g = .ok js → js.map (·.table) = t.links.map (·.2.tableRef)
  /-- A model is joined after the model it hangs on, which is the root or was joined before. -/
  order : ∀ before parent child after, t.links = before ++ (parent, child) :: after →
    parent = t.model ∨ ∃ above, (above, parent) ∈ before

/-- A join over an edge with taxons fails by errors of their formulas only. -/
theorem failsOfFormula_join {parent child : Model} {e : JoinEdge}
    (he : g.edge? parent.name child.name = some e) (some : ∃ taxon, taxon ∈ e.taxons) :
    FailsOfFormula (join g parent child) := by
  have conditions (taxons : List String) : FailsOfFormula (taxons.mapM fun t => do
      let left ← parent.taxonSql t false
      let right ← child.taxonSql t false
      return left.eq right) := by
    intro error h
    obtain ⟨_, taxon, _, _, _, failed⟩ := Result.mapM_eq_error.1 h
    refine FailsOfFormula.bind (parent.failsOfFormula_taxonSql taxon false) ?_ error failed
    intro left
    exact .bind (child.failsOfFormula_taxonSql taxon false) fun _ => .ok _
  unfold join joinCondition
  rw [he]
  dsimp only
  cases hc : e.taxons.toList.mapM (fun t => do
      let left ← parent.taxonSql t false
      let right ← child.taxonSql t false
      return left.eq right) with
  | error error => exact .error (conditions _ _ hc)
  | ok cs =>
    cases cs with
    | nil =>
      obtain ⟨taxon, ht⟩ := some
      obtain ⟨_, hc, _⟩ := Result.mapM_mem_ok hc ht
      exact (List.not_mem_nil hc).elim
    | cons c cs => exact .ok _

/-- Each join of a tree is the one of its link. -/
theorem tables_of_joins {js : List Sql.Join} (h : t.joins g = .ok js) :
    js.map (·.table) = t.links.map (·.2.tableRef) := by
  have each := Result.mapM_eq_ok.1 h
  clear h
  generalize t.links = links at each
  induction each with
  | nil => rfl
  | cons hj _ ih => rw [List.map_cons, List.map_cons, table_of_join hj, ih]

end JoinTree

namespace JoinGraph

variable {g : JoinGraph} {wanted : NameSet} {r : Reached} {level : List Model} {depth : Nat}

theorem claimLevel_near : List.Forall₂ (fun m own => ∀ n ∈ own, n ∈ g.neighbours m) level
    (g.claimLevel r level).1 := by
  induction level generalizing r with
  | nil => exact .nil
  | cons m level ih => exact .cons (fun _ => mem_claim) ih

theorem models_plant {claimed : List (List Model)} {ts : List JoinTree}
    (h : claimed.length = level.length) :
    (plant wanted level claimed ts).map (·.model) = level := by
  induction level generalizing claimed ts with
  | nil => rfl
  | cons m level ih =>
    cases claimed with
    | nil => cases h
    | cons own claimed => rw [plant, List.map_cons, ih (Nat.succ.inj h)]

theorem models_grow : (g.grow wanted depth r level).map (·.model) = level := by
  cases depth with
  | zero =>
    rw [grow, List.map_map]
    exact List.map_id level
  | succ depth => exact models_plant (length_claimLevel r level)

theorem isGrown_plant {claimed : List (List Model)} {ts : List JoinTree}
    (near : List.Forall₂ (fun m own => ∀ n ∈ own, n ∈ g.neighbours m) level claimed)
    (models : ts.map (·.model) = claimed.flatten) (hts : ∀ t ∈ ts, t.IsGrown g wanted) :
    ∀ t ∈ plant wanted level claimed ts, t.IsGrown g wanted := by
  induction near generalizing ts with
  | nil => exact fun _ ht => (List.not_mem_nil ht).elim
  | @cons m own level claimed near _ ih =>
    rw [List.flatten_cons] at models
    rw [plant]
    refine List.forall_mem_cons.2 ⟨.node ?_ ?_, ih ?_ ?_⟩
    · intro c hc
      have mine : c.model ∈ (ts.map (·.model)).take own.length := by
        rw [← List.map_take]
        exact List.mem_map_of_mem hc
      rw [models, List.take_left'] at mine
      · exact near c.model mine
      · rfl
    · intro c hc
      exact hts c (List.mem_of_mem_take hc)
    · rw [List.map_drop, models, List.drop_left']
      rfl
    · intro c hc
      exact hts c (List.mem_of_mem_drop hc)

theorem isGrown_grow : ∀ t ∈ g.grow wanted depth r level, t.IsGrown g wanted := by
  induction depth generalizing r level with
  | zero =>
    intro t ht
    obtain ⟨m, _, rfl⟩ := List.mem_map.1 ht
    exact .node (fun _ hc => (List.not_mem_nil hc).elim) (fun _ hc => (List.not_mem_nil hc).elim)
  | succ depth ih => exact isGrown_plant claimLevel_near models_grow ih

theorem isGrown_reach (g : JoinGraph) (wanted : NameSet) (root : Model) :
    (g.reach wanted root).IsGrown g wanted :=
  isGrown_grow _ (grow_root g wanted root ▸ List.mem_singleton_self _)

theorem model_reach (root : Model) : (g.reach wanted root).model = root := by
  have models := @models_grow g wanted (start root) [root] g.models.length
  rw [grow_root] at models
  exact List.cons.inj models |>.1

/-- Whether a search from a root reaches all wanted taxons. -/
def ReachesAll (g : JoinGraph) (wanted : NameSet) (root : Model) : Prop :=
  ∀ taxon ∈ wanted, taxon ∈ (g.reach wanted root).selectable

instance (g : JoinGraph) (wanted : NameSet) (root : Model) : Decidable (g.ReachesAll wanted root) :=
  inferInstanceAs (Decidable (∀ taxon ∈ wanted.toList, taxon ∈ (g.reach wanted root).selectable))

theorem isSubset_reach_iff {root : Model} :
    wanted.isSubset (g.reach wanted root).selectable = true ↔ g.ReachesAll wanted root := by
  unfold SortedSet.isSubset
  rw [List.all_eq_true]
  exact forall₂_congr fun _ _ => SortedSet.contains_iff

/-- What is found is what a search from some root can be pruned to. -/
theorem findTree_eq_ok {t : JoinTree} (h : g.findTree wanted = .ok t) :
    ∃ root ∈ g.models, t = (g.reach wanted root).prune wanted ∧ g.ReachesAll wanted root := by
  unfold findTree at h
  split at h
  · rename_i s hs
    cases h
    obtain ⟨root, hroot, rfl⟩ := List.mem_map.1 (List.mem_of_find?_eq_some hs)
    rw [roots, List.mem_mergeSort] at hroot
    have all : wanted.isSubset (g.reach wanted root).selectable = true := by
      simpa using List.find?_some hs
    exact ⟨root, hroot, rfl, isSubset_reach_iff.1 all⟩
  · cases h

/-- A tree is found if a search from some root reaches all wanted taxons. -/
theorem exists_findTree {root : Model} (hroot : root ∈ g.models)
    (h : g.ReachesAll wanted root) : ∃ t, g.findTree wanted = .ok t := by
  unfold findTree
  cases hf : ((g.roots wanted).map (g.reach wanted)).find?
      fun t => wanted.isSubset t.selectable with
  | some t => exact ⟨_, rfl⟩
  | none =>
    have tried : g.reach wanted root ∈ (g.roots wanted).map (g.reach wanted) := by
      refine List.mem_map_of_mem ?_
      rwa [roots, List.mem_mergeSort]
    exact absurd (isSubset_reach_iff.2 h) (List.find?_eq_none.1 hf _ tried)

/-- No tree is found if no search reaches all wanted taxons. -/
theorem findTree_eq_error (h : ∀ root ∈ g.models, ¬ g.ReachesAll wanted root) :
    g.findTree wanted = .error (.impossibleCombination wanted g.dataSource) := by
  unfold findTree
  rw [List.find?_eq_none.2]
  intro t ht
  obtain ⟨root, hroot, rfl⟩ := List.mem_map.1 ht
  rw [roots, List.mem_mergeSort] at hroot
  rw [isSubset_reach_iff]
  exact h root hroot

/-- Every join tree that is found in a built graph is sound. -/
theorem findTree_isSound {dataSources : NameSet} {ms : List Model} {t : JoinTree}
    (hb : build dataSources ms = .ok g) (h : g.findTree wanted = .ok t) : t.IsSound g wanted := by
  obtain ⟨root, hroot, rfl, covers⟩ := findTree_eq_ok h
  obtain ⟨new, last, explores, perm, _⟩ := exists_explores wanted hroot
  have grown := (isGrown_reach g wanted root).prune wanted
  have models := JoinTree.subperm_models_prune (g.reach wanted root) wanted
  have met : ∀ m ∈ ((g.reach wanted root).prune wanted).models, m ∈ root :: new :=
    fun m hm => perm.subset (models.subset hm)
  have share : ∀ s ∈ ((g.reach wanted root).prune wanted).breadthFirst, ∀ taxon,
      taxon ∈ s.taxons ↔ taxon ∈ wanted ∧ s.model.hasTaxon taxon = true := by
    intro s hs taxon
    rw [(grown.of_mem_breadthFirst hs).taxons]
    exact SortedSet.mem_filter
  have edges : ∀ parent child, (parent, child) ∈ ((g.reach wanted root).prune wanted).links →
      ∃ e, g.edge? parent.name child.name = some e ∧ e.relationship.causesFanout = false :=
    fun _ _ hl => ((mem_neighbours hb).1 (grown.neighbour_of_link hl)).2
  have fails : FailsOfFormula (((g.reach wanted root).prune wanted).joins g) := by
    intro error hj
    obtain ⟨_, ⟨parent, child⟩, _, split, _, failed⟩ := Result.mapM_eq_error.1 hj
    have linked : (parent, child) ∈ ((g.reach wanted root).prune wanted).links := by
      rw [split]
      exact List.mem_append_right _ (List.mem_cons_self ..)
    obtain ⟨e, he, _⟩ := edges parent child linked
    have some := exists_taxon_of_edge hb (List.mem_of_find?_eq_some he)
    exact JoinTree.failsOfFormula_join he some error failed
  constructor
  case reads =>
    refine SortedSet.ext fun taxon => ?_
    rw [SortedSet.mem_def]
    refine (JoinTree.mem_keys_taxonModels).trans ⟨?_, ?_⟩
    · intro selected
      obtain ⟨s, hs, has⟩ := JoinTree.mem_selectable_iff.1 selected
      exact ((share s hs taxon).1 has).1
    · intro htaxon
      exact JoinTree.mem_selectable_prune htaxon (covers taxon htaxon)
  case readFrom =>
    intro taxon m read
    obtain ⟨s, hs, rfl, has⟩ := JoinTree.read_taxonModels (SortedMap.get?_eq_some_iff.1 read)
    exact ⟨List.mem_map_of_mem hs, ((share s hs taxon).1 has).2⟩
  case taxons => exact share
  case models => exact fun m hm => explores.subset hroot m (met m hm)
  case edges => exact edges
  case distinct =>
    obtain ⟨kept, order, sub⟩ := models.trans perm.subperm
    exact (order.map _).nodup_iff.1 (explores.nodup.sublist (sub.map _))
  case granularity =>
    intro m hm n hn h k hh hk
    have mine := explores.granularity? (met m hm) hh
    have other := explores.granularity? (met n hn) hk
    exact Option.some.inj (mine.symm.trans other)
  case joined =>
    intro source target failed
    cases fails _ failed
  case fails => exact fails
  case joins => exact fun js hjs => JoinTree.tables_of_joins hjs
  case order => exact fun _ _ _ _ hl => JoinTree.parent_link_before hl

end JoinGraph

/-- A model with a column for each of its taxons. -/
def Model.ofTaxons (name : String) (taxons : List String) (joins : List ModelJoin) : Model :=
  ⟨name, .ofList (taxons.map fun t => (t, .of t ("\"" ++ t ++ "\""))), joins, ["fb"], none,
    .available, "acme", none, [name], none⟩

/-- Ads, their creatives and the campaigns that they belong to. -/
def adModels : List Model :=
  let join (relationship : Relationship) (target taxon : String) : ModelJoin :=
    ⟨.left, relationship, none, target, [taxon]⟩
  [.ofTaxons "campaigns" ["campaign_id", "fb|campaign_name"] [],
    .ofTaxons "creatives" ["ad_id", "fb|image"] [],
    .ofTaxons "ads" ["ad_id", "campaign_id", "fb|date", "fb|spend"]
      [join .oneToOne "creatives" "ad_id", join .manyToOne "campaigns" "campaign_id"]]

/-- The spend of campaigns can be read. -/
theorem JoinGraph.findTree_isSound_ads :
    ∃ g t, build (.ofList ["fb"]) adModels = .ok g ∧
      g.findTree (.ofList ["fb|campaign_name", "fb|spend"]) = .ok t ∧
      t.IsSound g (.ofList ["fb|campaign_name", "fb|spend"]) := by
  have reaches : (build (.ofList ["fb"]) adModels).toOption.any (fun g =>
      g.models.any fun root => g.ReachesAll (.ofList ["fb|campaign_name", "fb|spend"]) root) := by
    decide +kernel
  obtain ⟨g, hg, reaches⟩ := Result.ok_of_any reaches
  obtain ⟨root, hroot, reaches⟩ := List.any_eq_true.1 reaches
  obtain ⟨t, ht⟩ := exists_findTree hroot (of_decide_eq_true reaches)
  exact ⟨g, t, hg, ht, findTree_isSound hg ht⟩

end SemanticLayer
