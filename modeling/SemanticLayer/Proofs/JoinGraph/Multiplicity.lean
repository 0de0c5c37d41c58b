import SemanticLayer.Proofs.JoinGraph.Soundness

/-!
# Joins that multiply rows

Whether a join can multiply the rows of a model is a matter of the declaration that its edge comes
from: the relationship as the declaring model has it, reversed for the other model.

* `Declaration.seenFrom`: the declared relationship, seen from one of the two models;
* `Declaration.IsUnreversed`: a join that is followed back as if it were followed forth;
* `link_keepsRows_iff`: the joins of a tree that is found keep the rows of the model they start
  from, unless they are of this kind.
-/

namespace SemanticLayer

namespace Relationship

theorem causesFanout_eq_false {r : Relationship} :
    r.causesFanout = false ↔ r = .oneToOne ∨ r = .manyToOne := by
  cases r <;> simp [causesFanout]

end Relationship

namespace Declaration

variable {d : Declaration} {source target : String}

/-- The relationship seen from one of the two models: as declared from the declaring one, reversed
from the other one. -/
def seenFrom (d : Declaration) (source : String) : Relationship :=
  if d.model.name = source then d.join.relationship else d.join.relationship.reverse

/-- Whether a relation of many to one is followed from its other end, since it is declared to be
followed both ways. -/
def IsUnreversed (d : Declaration) (source : String) : Prop :=
  d.model.name ≠ source ∧ d.join.direction? = some .both ∧ d.join.relationship = .manyToOne

/-- A relation of many to one can be followed both ways only where this is declared. -/
theorem direction?_of_manyToOne {j : ModelJoin} (h : j.direction = .both)
    (many : j.relationship = .manyToOne) : j.direction? = some .both := by
  unfold ModelJoin.direction at h
  rw [many] at h
  cases hd : j.direction? with
  | none =>
    rw [hd] at h
    cases h
  | some direction =>
    rw [hd] at h
    exact congrArg some h

/-- An edge that passes for safe is so, unless it goes back as if it went forth. -/
theorem seenFrom_keepsRows_iff (safe : (d.edge source target).relationship.causesFanout = false) :
    (d.seenFrom source).causesFanout = false ↔ ¬ d.IsUnreversed source := by
  unfold edge seenFrom IsUnreversed at *
  by_cases own : d.model.name = source
  · rw [if_pos own] at safe ⊢
    constructor
    · exact fun _ back => back.1 own
    · exact fun _ => safe
  rw [if_neg own] at safe ⊢
  by_cases both : d.join.direction = .both
  · simp only [if_pos both] at safe
    rcases Relationship.causesFanout_eq_false.1 safe with one | many
    · rw [one]
      constructor
      · rintro _ ⟨_, _, many⟩
        cases many
      · exact fun _ => rfl
    · rw [many]
      constructor
      · intro keeps
        cases keeps
      · intro forth
        exact absurd ⟨own, direction?_of_manyToOne both many, rfl⟩ forth
  · simp only [if_neg both] at safe
    constructor
    · rintro _ ⟨_, declared, _⟩
      apply both
      rw [ModelJoin.direction, declared]
      rfl
    · exact fun _ => safe

end Declaration

namespace JoinGraph

variable {g : JoinGraph} {dataSources wanted : NameSet} {ms : List Model} {t : JoinTree}

/-- The two ends of a join in a tree are different models. -/
theorem name_ne_of_link (hd : (t.models.map (·.name)).Nodup) {parent child : Model}
    (hl : (parent, child) ∈ t.links) : parent.name ≠ child.name := by
  obtain ⟨s, hs, hl⟩ := List.mem_flatMap.1 hl
  obtain ⟨c, hc, e⟩ := List.mem_map.1 hl
  cases e
  -- both stand in the subtree of the parent, where no name comes twice
  have within : s.models.Subperm t.models := JoinTree.subperm_models_of_mem hs
  obtain ⟨kept, order, sub⟩ := within
  have names : (s.models.map (·.name)).Nodup :=
    (order.map _).nodup_iff.1 (hd.sublist (sub.map _))
  have apart := (((JoinTree.models_perm s).map (·.name)).nodup_iff).1 names
  rw [List.map_cons, List.nodup_cons] at apart
  intro same
  apply apart.1
  rw [same]
  exact List.mem_map_of_mem (List.mem_flatMap.2 ⟨c, hc, c.model_mem_models⟩)

/-- The join of a model to another in a tree comes from the last declaration by which it can be
followed.  Seen from the model that is joined to, it is one to one or many to one, unless the other
model declares it many to one and to be followed both ways. -/
theorem link_keepsRows_iff (hb : build dataSources ms = .ok g) (ht : g.findTree wanted = .ok t)
    {parent child : Model} (hl : (parent, child) ∈ t.links) :
    ∃ d, origin? ms parent.name child.name = some d ∧
      g.edge? parent.name child.name = some (d.edge parent.name child.name) ∧
      (d.seenFrom parent.name = .oneToOne ∨ d.seenFrom parent.name = .manyToOne ↔
        ¬ d.IsUnreversed parent.name) := by
  have sound := findTree_isSound hb ht
  obtain ⟨e, he, safe⟩ := sound.edges parent child hl
  have other := name_ne_of_link sound.distinct hl
  have ends := JoinTree.links_of_over (findTree_over ht) hl
  rw [build_models hb] at ends
  have declared := edge?_build hb other (List.mem_map_of_mem ends.1) (List.mem_map_of_mem ends.2)
  obtain ⟨d, hd, rfl⟩ := Option.map_eq_some_iff.1 (declared.symm.trans he)
  refine ⟨d, hd, he, ?_⟩
  rw [← Relationship.causesFanout_eq_false]
  exact Declaration.seenFrom_keepsRows_iff safe

/-- Where the models stand in the order of their promise, the first that reaches all taxons is the
root. -/
theorem findTree_of_ordered {root : Model}
    (ordered : g.models.Pairwise fun a b => compare (promise wanted a) (promise wanted b) ≠ .lt)
    (first : g.models.find? (fun m => g.ReachesAll wanted m) = some root) :
    g.findTree wanted = .ok ((g.reach wanted root).prune wanted) := by
  have order : g.roots wanted = g.models := by
    refine List.mergeSort_of_pairwise (ordered.imp ?_)
    intro a b later
    exact bne_iff_ne.2 later
  have found : ((g.models.map (g.reach wanted)).find? fun t => wanted.isSubset t.selectable) =
      some (g.reach wanted root) := by
    rw [List.find?_map, Option.map_eq_some_iff]
    refine ⟨root, ?_, rfl⟩
    rw [← first]
    congr 1
    funext m
    rw [Bool.eq_iff_iff, decide_eq_true_iff]
    exact isSubset_reach_iff
  unfold findTree
  rw [order, found]

/-- A check of the tree that is found. -/
theorem exists_tree_of_any (dataSources : NameSet) (ms : List Model) (wanted : NameSet)
    {p : JoinTree → Bool}
    (h : (build dataSources ms).toOption.any (fun g =>
      (g.models.Pairwise fun a b => compare (promise wanted a) (promise wanted b) ≠ .lt) &&
        (g.models.find? fun m => g.ReachesAll wanted m).any fun root =>
          p ((g.reach wanted root).prune wanted)) = true) :
    ∃ g t, build dataSources ms = .ok g ∧ g.findTree wanted = .ok t ∧ p t = true := by
  obtain ⟨g, hg, h⟩ := Result.ok_of_any h
  obtain ⟨ordered, h⟩ := Bool.and_eq_true_iff.1 h
  obtain ⟨root, first, h⟩ := (Option.any_eq_true _ _).1 h
  exact ⟨g, _, hg, findTree_of_ordered (of_decide_eq_true ordered) first, h⟩

/-- A check of the declarations that the joins of a tree come from. -/
theorem exists_link_of_any (dataSources : NameSet) (ms : List Model) (wanted : NameSet)
    {p : Declaration → Model → Bool}
    (h : (build dataSources ms).toOption.any (fun g =>
      (g.models.Pairwise fun a b => compare (promise wanted a) (promise wanted b) ≠ .lt) &&
        (g.models.find? fun m => g.ReachesAll wanted m).any fun root =>
          ((g.reach wanted root).prune wanted).links.any fun (parent, child) =>
            (origin? ms parent.name child.name).any fun d => p d parent) = true) :
    ∃ g t parent child d, build dataSources ms = .ok g ∧ g.findTree wanted = .ok t ∧
      (parent, child) ∈ t.links ∧ origin? ms parent.name child.name = some d ∧
      p d parent = true := by
  obtain ⟨g, t, hg, ht, h⟩ := exists_tree_of_any dataSources ms wanted
    (p := fun t => t.links.any fun (parent, child) =>
      (origin? ms parent.name child.name).any fun d => p d parent) h
  obtain ⟨⟨parent, child⟩, hl, h⟩ := List.any_eq_true.1 h
  obtain ⟨d, hd, h⟩ := (Option.any_eq_true _ _).1 h
  exact ⟨g, t, parent, child, d, hg, ht, hl, hd, h⟩

end JoinGraph

/-- Campaigns and their ads, which declare a join with the campaigns. -/
def campaignModels (direction? : Option JoinDirection) : List Model :=
  [.ofTaxons "campaigns" ["campaign_id", "budget", "name"] [],
    .ofTaxons "ads" ["campaign_id", "spend"]
      [⟨.left, .manyToOne, direction?, "campaigns", ["campaign_id"]⟩]]

/-- Where the join is followed from the ads only, each row of ads has one campaign. -/
theorem JoinGraph.link_keepsRows_ads :
    ∃ g t parent child d, build (.ofList ["fb"]) (campaignModels none) = .ok g ∧
      g.findTree (.ofList ["name", "spend"]) = .ok t ∧ (parent, child) ∈ t.links ∧
      origin? (campaignModels none) parent.name child.name = some d ∧
      (d.seenFrom parent.name = .oneToOne ∨ d.seenFrom parent.name = .manyToOne) := by
  obtain ⟨g, t, parent, child, d, hg, ht, hl, hd, inferred⟩ :=
    exists_link_of_any (.ofList ["fb"]) (campaignModels none) (.ofList ["name", "spend"])
      (p := fun d _ => d.join.direction? ≠ some .both) (by decide +kernel)
  obtain ⟨d', hd', _, keeps⟩ := link_keepsRows_iff hg ht hl
  cases hd.symm.trans hd'
  refine ⟨g, t, parent, child, d, hg, ht, hl, hd, keeps.2 ?_⟩
  exact fun back => of_decide_eq_true inferred back.2.1

/-- Where it is followed both ways, the search joins the ads to their campaigns as if each campaign
had one ad, and so multiplies the budget. -/
theorem JoinGraph.findTree_multiplies_campaigns :
    ∃ g t parent child d, build (.ofList ["fb"]) (campaignModels (some .both)) = .ok g ∧
      g.findTree (.ofList ["budget", "name", "spend"]) = .ok t ∧ (parent, child) ∈ t.links ∧
      origin? (campaignModels (some .both)) parent.name child.name = some d ∧
      ¬ (d.seenFrom parent.name = .oneToOne ∨ d.seenFrom parent.name = .manyToOne) := by
  obtain ⟨g, t, parent, child, d, hg, ht, hl, hd, multiplies⟩ :=
    exists_link_of_any (.ofList ["fb"]) (campaignModels (some .both))
      (.ofList ["budget", "name", "spend"])
      (p := fun d parent => d.seenFrom parent.name = .oneToMany) (by decide +kernel)
  refine ⟨g, t, parent, child, d, hg, ht, hl, hd, ?_⟩
  rw [of_decide_eq_true multiplies]
  rintro (h | h)
  · cases h
  · cases h

end SemanticLayer
