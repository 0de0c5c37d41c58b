import Mathlib.Data.List.Nodup
import SemanticLayer.Proofs.JoinGraph.Models

/-!
# Edges of join graphs

Between two models a graph has at most one edge in each direction, and it is the one that was
declared last.

* `edge?_addEdge`: what a new edge changes;
* `Declaration.Joins`, `origin?`: the declaration that the edge between two models comes from;
* `edge?_build`: a graph has for two models the edge of that declaration;
* `mem_neighbours`: the models that a search can go on to.
-/

namespace SemanticLayer

/-- A join with the model that declares it. -/
structure Declaration where
  model : Model
  join : ModelJoin
  deriving DecidableEq

namespace Declaration

/-- Whether the join can be followed from one model to another. -/
def Joins (d : Declaration) (source target : String) : Prop :=
  d.model.name = source ∧ d.join.target = target ∧ d.join.direction ≠ .incoming ∨
    d.model.name = target ∧ d.join.target = source ∧ d.join.direction ≠ .outgoing

instance (d : Declaration) (source target : String) : Decidable (d.Joins source target) :=
  inferInstanceAs (Decidable (_ ∧ _ ∧ _ ∨ _ ∧ _ ∧ _))

/-- The edge from a model to another one that the join stands for. -/
def edge (d : Declaration) (source target : String) : JoinEdge :=
  let j := d.join
  if d.model.name = source then ⟨source, target, .ofList j.taxons, j.relationship, j.kind⟩
  else
    ⟨source, target, .ofList j.taxons,
      if j.direction = .both then j.relationship else j.relationship.reverse, j.kind.reverse⟩

end Declaration

/-- The joins that models declare, one model after the other. -/
def declarations (ms : List Model) : List Declaration :=
  ms.flatMap fun m => m.joins.map (Declaration.mk m)

/-- The declaration that the edge from one model to another comes from: the last one by which it
can be followed. -/
def origin? (ms : List Model) (source target : String) : Option Declaration :=
  ((declarations ms).filter (·.Joins source target)).getLast?

namespace JoinGraph

variable {g g' : JoinGraph} {ms : List Model} {source target : String}

/-! ## One edge -/

/-- A new edge counts between its two models, and changes nothing for others. -/
theorem edge?_addEdge (g : JoinGraph) (e : JoinEdge) (source target : String) :
    (g.addEdge e).edge? source target =
      if e.source = source ∧ e.target = target then some e else g.edge? source target := by
  unfold addEdge edge?
  dsimp only
  split
  · rename_i known
    generalize g.edges = es at known
    by_cases same : e.source = source ∧ e.target = target
    · rw [if_pos same]
      induction es with
      | nil => simp at known
      | cons f es ih =>
        by_cases hf : f.source = e.source ∧ f.target = e.target
        · simp [hf, same]
        · have rest : es.any (fun f => decide (f.source = e.source ∧ f.target = e.target)) := by
            simpa [hf] using known
          have other : ¬ (f.source = source ∧ f.target = target) := by
            rw [← same.1, ← same.2]
            exact hf
          simp only [List.map_cons, decide_eq_true_eq, if_neg hf, List.find?_cons, other,
            decide_false]
          simpa using ih rest
    · rw [if_neg same]
      clear known
      induction es with
      | nil => rfl
      | cons f es ih =>
        by_cases hf : f.source = e.source ∧ f.target = e.target
        · have other : ¬ (f.source = source ∧ f.target = target) := by
            rw [hf.1, hf.2]
            exact same
          rw [List.map_cons, if_pos (decide_eq_true hf),
            List.find?_cons_of_neg (by simpa using same),
            List.find?_cons_of_neg (by simpa using other)]
          exact ih
        · simp only [List.map_cons, decide_eq_true_eq, if_neg hf, List.find?_cons]
          simp only [decide_eq_true_eq] at ih
          rw [ih]
  · rw [List.find?_cons]
    by_cases same : e.source = source ∧ e.target = target
    · simp [same]
    · simp [same]

/-- Whether no two edges lead from one model to the same other one. -/
def HasSingleEdges (g : JoinGraph) : Prop :=
  g.edges.Pairwise fun e f => ¬ (e.source = f.source ∧ e.target = f.target)

theorem HasSingleEdges.addEdge (h : g.HasSingleEdges) (e : JoinEdge) :
    (g.addEdge e).HasSingleEdges := by
  unfold HasSingleEdges JoinGraph.addEdge
  dsimp only
  split
  · -- the edge takes the place of one with the same ends
    have ends (f : JoinEdge) (r : JoinEdge)
        (hr : r = if f.source = e.source ∧ f.target = e.target then e else f) :
        r.source = f.source ∧ r.target = f.target := by
      subst hr
      split
      · rename_i same
        exact ⟨same.1.symm, same.2.symm⟩
      · exact ⟨rfl, rfl⟩
    rw [List.pairwise_map]
    refine h.imp ?_
    intro f f' apart same
    obtain ⟨source, target⟩ := ends f _ rfl
    obtain ⟨source', target'⟩ := ends f' _ rfl
    simp only [decide_eq_true_eq] at same
    rw [source, target, source', target'] at same
    exact apart same
  · rename_i new
    refine List.pairwise_cons.2 ⟨?_, h⟩
    intro f hf same
    refine new (List.any_eq_true.2 ⟨f, hf, ?_⟩)
    exact decide_eq_true ⟨same.1.symm, same.2.symm⟩

theorem HasSingleEdges.addEdges (h : g.HasSingleEdges) (es : List JoinEdge) :
    (es.foldl JoinGraph.addEdge g).HasSingleEdges := by
  induction es generalizing g with
  | nil => exact h
  | cons e es ih => exact ih (h.addEdge e)

theorem edge?_eq_some_iff (h : g.HasSingleEdges) {e : JoinEdge} :
    g.edge? source target = some e ↔ e ∈ g.edges ∧ e.source = source ∧ e.target = target := by
  constructor
  · intro found
    exact ⟨List.mem_of_find?_eq_some found, by simpa using List.find?_some found⟩
  · rintro ⟨he, rfl, rfl⟩
    unfold HasSingleEdges at h
    unfold edge?
    generalize g.edges = es at h he
    induction es with
    | nil => cases he
    | cons f es ih =>
      obtain ⟨hf, hes⟩ := List.pairwise_cons.1 h
      rcases List.mem_cons.1 he with rfl | he
      · simp
      · have other := hf e he
        rw [List.find?_cons_of_neg (by simpa using other)]
        exact ih hes he

theorem mem_addEdge {e f : JoinEdge} (h : f ∈ (g.addEdge e).edges) : f = e ∨ f ∈ g.edges := by
  unfold addEdge at h
  dsimp only at h
  split at h
  · obtain ⟨f', hf', rfl⟩ := List.mem_map.1 h
    split
    · exact .inl rfl
    · exact .inr hf'
  · exact List.mem_cons.1 h

theorem mem_addEdges {es : List JoinEdge} {f : JoinEdge} (h : f ∈ (es.foldl addEdge g).edges) :
    f ∈ es ∨ f ∈ g.edges := by
  induction es generalizing g with
  | nil => exact .inr h
  | cons e es ih =>
    rcases ih h with hf | hf
    · exact .inl (List.mem_cons_of_mem _ hf)
    · rcases mem_addEdge hf with rfl | hf
      · exact .inl (List.mem_cons_self ..)
      · exact .inr hf

/-! ## Declared edges -/

theorem taxons_of_mem_edges {j : ModelJoin} {m : Model} {e : JoinEdge} (h : e ∈ j.edges m) :
    e.taxons = .ofList j.taxons := by
  unfold ModelJoin.edges at h
  dsimp only at h
  split at h
  · rcases List.mem_pair.1 h with rfl | rfl
    · rfl
    · rfl
  · cases List.mem_singleton.1 h
    rfl
  · cases List.mem_singleton.1 h
    rfl

/-- Whether the edge between two different models of a graph is that of the last of some
declarations by which it can be followed. -/
def ComesFrom (g : JoinGraph) (ds : List Declaration) : Prop :=
  ∀ source target, source ≠ target → (g.model? source).isSome → (g.model? target).isSome →
    g.edge? source target =
      ((ds.filter (·.Joins source target)).getLast?).map (·.edge source target)

theorem isSome_model?_iff {name : String} :
    (g.model? name).isSome ↔ name ∈ g.models.map (·.name) := by
  simp [model?]

/-- The edges of a declared join count between its two models. -/
theorem edge?_addEdges (d : Declaration) (h : source ≠ target) :
    ((d.join.edges d.model).foldl addEdge g).edge? source target =
      if d.Joins source target then some (d.edge source target) else g.edge? source target := by
  unfold ModelJoin.edges Declaration.Joins Declaration.edge
  dsimp only
  split
  · simp only [List.foldl_cons, List.foldl_nil, edge?_addEdge]
    grind
  · simp only [List.foldl_cons, List.foldl_nil, edge?_addEdge]
    grind
  · simp only [List.foldl_cons, List.foldl_nil, edge?_addEdge]
    grind

theorem ComesFrom.addJoin {ds : List Declaration} {d : Declaration} (h : g.ComesFrom ds)
    (hg : g.addJoin d.model d.join = .ok g') (hd : d.model ∈ g.models) :
    g'.ComesFrom (ds ++ [d]) := by
  have models := addJoin_models hg
  have declared : (g.model? d.model.name).isSome :=
    isSome_model?_iff.2 (List.mem_map_of_mem hd)
  intro source target other hs ht
  have hs : (g.model? source).isSome := by
    rwa [isSome_model?_iff, models, ← isSome_model?_iff] at hs
  have ht : (g.model? target).isSome := by
    rwa [isSome_model?_iff, models, ← isSome_model?_iff] at ht
  have before := h source target other hs ht
  have last : (((ds ++ [d]).filter (·.Joins source target)).getLast?).map (·.edge source target) =
      if d.Joins source target then some (d.edge source target) else g.edge? source target := by
    rw [before, List.filter_append]
    by_cases joins : d.Joins source target
    · simp [joins]
    · simp [joins]
  rw [last]
  unfold JoinGraph.addJoin at hg
  split at hg
  · rename_i unknown
    cases hg
    -- a join with a model that is not there joins no two models that are
    rw [if_neg]
    rintro (⟨_, rfl, _⟩ | ⟨_, rfl, _⟩)
    · simp [Option.isNone_iff_eq_none.1 unknown] at ht
    · simp [Option.isNone_iff_eq_none.1 unknown] at hs
  · split at hg
    · cases hg
    · cases hg
      exact edge?_addEdges d other

/-- Joins that are added one after the other count after those that are there. -/
theorem ComesFrom.addJoins {ds done : List Declaration} (h : g.ComesFrom done)
    (hg : ds.foldlM (fun (g : JoinGraph) d => g.addJoin d.model d.join) g = .ok g')
    (hds : ∀ d ∈ ds, d.model ∈ g.models) : g'.ComesFrom (done ++ ds) := by
  induction ds generalizing done g with
  | nil =>
    cases hg
    rw [List.append_nil]
    exact h
  | cons d ds ih =>
    rw [List.foldlM_cons] at hg
    obtain ⟨g₁, step, rest⟩ := Result.bind_eq_ok.1 hg
    obtain ⟨own, hds⟩ := List.forall_mem_cons.1 hds
    have later : ∀ d ∈ ds, d.model ∈ g₁.models := by
      rw [addJoin_models step]
      exact hds
    have next := ih (h.addJoin step own) rest later
    rwa [List.append_assoc] at next

theorem mem_declarations {d : Declaration} (h : d ∈ declarations ms) : d.model ∈ ms := by
  obtain ⟨m, hm, hd⟩ := List.mem_flatMap.1 h
  obtain ⟨j, _, rfl⟩ := List.mem_map.1 hd
  exact hm

theorem firstRepeated?_eq_none {seen names : List String} (h : firstRepeated? seen names = none) :
    names.Nodup ∧ ∀ n ∈ names, n ∉ seen := by
  induction names generalizing seen with
  | nil => exact ⟨List.nodup_nil, List.forall_mem_nil _⟩
  | cons n names ih =>
    rw [firstRepeated?] at h
    split at h
    · cases h
    · rename_i new
      obtain ⟨nodup, apart⟩ := ih h
      constructor
      · refine List.nodup_cons.2 ⟨?_, nodup⟩
        intro hn
        exact apart n hn (List.mem_cons_self ..)
      · intro k hk seenK
        rcases List.mem_cons.1 hk with rfl | hk
        · exact new seenK
        · exact apart k hk (List.mem_cons_of_mem _ seenK)

/-- What a graph is built from: models with different names, and their joins one by one. -/
theorem build_eq_ok {dataSources : NameSet} (h : build dataSources ms = .ok g) :
    (ms.map (·.name)).Nodup ∧ ∃ dataSource,
      (declarations ms).foldlM (fun (g : JoinGraph) d => g.addJoin d.model d.join)
        ⟨dataSource, ms, []⟩ = .ok g := by
  unfold build at h
  split at h
  · rename_i dataSource _
    split at h
    · cases h
    · rename_i distinct
      refine ⟨(firstRepeated?_eq_none distinct).1, dataSource, ?_⟩
      rw [← h]
      clear h distinct
      generalize JoinGraph.mk dataSource ms [] = start
      clear * - start
      induction ms generalizing start with
      | nil => rfl
      | cons m ms ih =>
        rw [declarations, List.flatMap_cons, List.foldlM_append, List.foldlM_cons, List.foldlM_map]
        refine Result.bind_congr ?_
        intro g _
        exact ih g
  · cases h

section
variable {dataSources : NameSet} (hb : build dataSources ms = .ok g)
include hb

theorem nodup_names : (g.models.map (·.name)).Nodup := by
  rw [build_models hb]
  exact (build_eq_ok hb).1

/-- Two models of a built graph with one name are one model. -/
theorem eq_of_name_eq {m n : Model} (hm : m ∈ g.models) (hn : n ∈ g.models)
    (h : m.name = n.name) : m = n :=
  List.inj_on_of_nodup_map (nodup_names hb) hm hn h

theorem model?_name {m : Model} (hm : m ∈ g.models) : g.model? m.name = some m := by
  have known : (g.model? m.name).isSome := isSome_model?_iff.2 (List.mem_map_of_mem hm)
  obtain ⟨n, hn⟩ := Option.isSome_iff_exists.1 known
  have same : n.name = m.name := by simpa using List.find?_some hn
  rw [hn, eq_of_name_eq hb (mem_of_model? hn) hm same]

theorem hasSingleEdges_build : g.HasSingleEdges := by
  obtain ⟨_, _, h⟩ := build_eq_ok hb
  refine Result.foldlM_invariant (p := HasSingleEdges) h List.Pairwise.nil ?_
  intro d _ g g' hg before
  unfold addJoin at hg
  split at hg
  · cases hg
    exact before
  · split at hg
    · cases hg
    · cases hg
      exact before.addEdges _

/-- Each edge of a built graph has a taxon to join on. -/
theorem exists_taxon_of_edge {e : JoinEdge} (he : e ∈ g.edges) : ∃ taxon, taxon ∈ e.taxons := by
  obtain ⟨_, _, h⟩ := build_eq_ok hb
  refine Result.foldlM_invariant (p := fun g => ∀ e ∈ g.edges, ∃ taxon, taxon ∈ e.taxons) h
    (List.forall_mem_nil _) ?_ e he
  intro d _ g g' hg before
  unfold addJoin at hg
  split at hg
  · cases hg
    exact before
  · split at hg
    · cases hg
    · rename_i some
      cases hg
      have declared : ∀ e ∈ d.join.edges d.model, ∃ taxon, taxon ∈ e.taxons := by
        intro e he
        rw [List.isEmpty_iff] at some
        obtain ⟨taxon, ht⟩ := List.exists_mem_of_ne_nil _ some
        refine ⟨taxon, ?_⟩
        rwa [taxons_of_mem_edges he, SortedSet.mem_ofList]
      intro e he
      rcases mem_addEdges he with he | he
      · exact declared e he
      · exact before e he

/-- The edge between two models of a built graph is that of the last declaration by which it can be
followed. -/
theorem edge?_build (h : source ≠ target) (hs : source ∈ ms.map (·.name))
    (ht : target ∈ ms.map (·.name)) :
    g.edge? source target = (origin? ms source target).map (·.edge source target) := by
  obtain ⟨_, dataSource, folded⟩ := build_eq_ok hb
  have empty : (JoinGraph.mk dataSource ms []).ComesFrom [] := fun _ _ _ _ _ => rfl
  have comes := empty.addJoins folded fun _ => mem_declarations
  rw [← build_models hb] at hs ht
  exact comes source target h (isSome_model?_iff.2 hs) (isSome_model?_iff.2 ht)

/-- A search goes on to the models that an edge leads to which cannot multiply rows. -/
theorem mem_neighbours {m n : Model} :
    n ∈ g.neighbours m ↔ n ∈ g.models ∧
      ∃ e, g.edge? m.name n.name = some e ∧ e.relationship.causesFanout = false := by
  have single := hasSingleEdges_build hb
  unfold neighbours edgesFrom
  rw [List.mem_filterMap]
  constructor
  · rintro ⟨e, he, found⟩
    obtain ⟨he, source⟩ := List.mem_filter.1 he
    split at found
    · cases found
    · rename_i safe
      have target : n.name = e.target := by simpa using List.find?_some found
      refine ⟨mem_of_model? found, e, ?_, Bool.eq_false_iff.2 safe⟩
      exact (edge?_eq_some_iff single).2 ⟨he, of_decide_eq_true source, target.symm⟩
  · rintro ⟨hn, e, he, safe⟩
    obtain ⟨he, source, target⟩ := (edge?_eq_some_iff single).1 he
    refine ⟨e, List.mem_filter.2 ⟨he, decide_eq_true source⟩, ?_⟩
    rw [if_neg (Bool.eq_false_iff.1 safe), target]
    exact model?_name hb hn

end

end JoinGraph

end SemanticLayer
