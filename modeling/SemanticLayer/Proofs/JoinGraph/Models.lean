import Mathlib.Data.List.Basic
import SemanticLayer.JoinGraph.Search
import SemanticLayer.Proofs.Result

/-!
# Models of join trees

A join tree is made of models of its graph, and so are the joins of the query that reads it.

* `build_models`: a graph holds the models it was built from;
* `findTree_over`: a tree that is found hangs on models of the graph only;
* `links_of_over`: so do the two ends of each of its joins.
-/

namespace SemanticLayer

namespace JoinTree

/-- Whether all models of a tree belong to a list. -/
inductive Over (ms : List Model) : JoinTree → Prop
  | node {m : Model} {taxons : NameSet} {children : List JoinTree} (hm : m ∈ ms)
      (hc : ∀ c ∈ children, Over ms c) : Over ms ⟨m, taxons, children⟩

variable {ms : List Model} {t s : JoinTree}

theorem Over.model_mem (h : t.Over ms) : t.model ∈ ms := by
  cases h with
  | node hm _ => exact hm

theorem Over.children (h : t.Over ms) : ∀ c ∈ t.children, c.Over ms := by
  cases h with
  | node _ hc => exact hc

theorem Over.of_children (hm : t.model ∈ ms) (hc : ∀ c ∈ t.children, c.Over ms) : t.Over ms := by
  cases t with
  | mk => exact .node hm hc

theorem mem_zipLevels {α : Type} {x : α} {xss yss : List (List α)} :
    x ∈ (zipLevels xss yss).flatten ↔ x ∈ xss.flatten ∨ x ∈ yss.flatten := by
  fun_induction zipLevels xss yss with
  | case1 yss => simp
  | case2 xss _ => simp
  | case3 xs xss ys yss ih =>
    simp only [List.flatten_cons, List.mem_append, ih]
    grind

theorem mem_levelsOf {ts : List JoinTree} :
    s ∈ (levelsOf ts).flatten ↔ ∃ t ∈ ts, s ∈ t.breadthFirst := by
  induction ts with
  | nil => simp [levelsOf]
  | cons t ts ih =>
    rw [levelsOf, mem_zipLevels, ih, List.exists_mem_cons_iff, breadthFirst]

/-- The subtrees of a tree are itself and those of its children. -/
theorem mem_breadthFirst :
    s ∈ t.breadthFirst ↔ s = t ∨ ∃ c ∈ t.children, s ∈ c.breadthFirst := by
  obtain ⟨m, taxons, children⟩ := t
  rw [breadthFirst, levels, List.flatten_cons, List.mem_append, mem_levelsOf, List.mem_singleton]

theorem Over.of_mem_breadthFirst (h : t.Over ms) (hs : s ∈ t.breadthFirst) : s.Over ms := by
  induction h with
  | node hm hc ih =>
    rcases mem_breadthFirst.1 hs with rfl | ⟨c, hc', hs⟩
    · exact .node hm hc
    · exact ih c hc' hs

theorem links_of_over (h : t.Over ms) {parent child : Model} (hl : (parent, child) ∈ t.links) :
    parent ∈ ms ∧ child ∈ ms := by
  obtain ⟨s, hs, hl⟩ := List.mem_flatMap.1 hl
  obtain ⟨c, hc, e⟩ := List.mem_map.1 hl
  cases e
  have inTree := h.of_mem_breadthFirst hs
  exact ⟨inTree.model_mem, (inTree.children c hc).model_mem⟩

theorem table_of_join {g : JoinGraph} {parent child : Model} {j : Sql.Join}
    (h : join g parent child = .ok j) : j.table = child.tableRef := by
  unfold join at h
  split at h
  · cases h
  · obtain ⟨condition?, _, h⟩ := Result.bind_eq_ok.1 h
    split at h
    · cases h
    · cases h
      rfl

/-- Each table that is joined is one of a model of the tree. -/
theorem joins_of_over (h : t.Over ms) {g : JoinGraph} {js : List Sql.Join}
    (hjs : t.joins g = .ok js) {j : Sql.Join} (hj : j ∈ js) : ∃ m ∈ ms, j.table = m.tableRef := by
  obtain ⟨⟨parent, child⟩, hlink, hjoin⟩ := Result.mapM_ok_mem hjs hj
  exact ⟨child, (links_of_over h hlink).2, table_of_join hjoin⟩

theorem mem_keepUseful {brought : NameSet} {os : List Offer} (h : t ∈ keepUseful brought os) :
    ∃ o ∈ os, t = o.tree := by
  induction os generalizing brought with
  | nil => cases h
  | cons o os ih =>
    rw [keepUseful] at h
    split at h
    · obtain ⟨o', ho, e⟩ := ih h
      exact ⟨o', List.mem_cons_of_mem _ ho, e⟩
    · rcases List.mem_cons.1 h with rfl | h
      · exact ⟨o, List.mem_cons_self .., rfl⟩
      · obtain ⟨o', ho, e⟩ := ih h
        exact ⟨o', List.mem_cons_of_mem _ ho, e⟩

theorem offersOf_eq (missing : NameSet) (ts : List JoinTree) :
    offersOf missing ts = ts.map fun t => ⟨t.selectable.inter missing, t.prune missing⟩ := by
  induction ts with
  | nil => rfl
  | cons t ts ih => rw [offersOf, ih, List.map_cons]

/-- What is kept of a tree's children are some of them, pruned. -/
theorem exists_child_of_prune {needed : NameSet} {c : JoinTree}
    (h : c ∈ (t.prune needed).children) :
    ∃ child ∈ t.children, c = child.prune (needed.diff t.taxons) := by
  obtain ⟨m, taxons, children⟩ := t
  rw [JoinTree.prune] at h
  obtain ⟨o, ho, rfl⟩ := mem_keepUseful h
  rw [List.mem_mergeSort, offersOf_eq] at ho
  obtain ⟨child, hchild, rfl⟩ := List.mem_map.1 ho
  exact ⟨child, hchild, rfl⟩

theorem model_prune (t : JoinTree) (needed : NameSet) : (t.prune needed).model = t.model := by
  obtain ⟨m, taxons, children⟩ := t
  rw [prune]

theorem taxons_prune (t : JoinTree) (needed : NameSet) : (t.prune needed).taxons = t.taxons := by
  obtain ⟨m, taxons, children⟩ := t
  rw [prune]

/-- What is cut off leaves models of the tree only. -/
theorem Over.prune (h : t.Over ms) (needed : NameSet) : (t.prune needed).Over ms := by
  induction h generalizing needed with
  | @node m taxons children hm hc ih =>
    refine .of_children ?_ ?_
    · rwa [model_prune]
    · intro c kept
      obtain ⟨child, hchild, rfl⟩ := exists_child_of_prune kept
      exact ih child hchild _

end JoinTree

namespace JoinGraph

variable {g : JoinGraph} {m : Model} {wanted : NameSet}

theorem mem_claim {r : Reached} {ms : List Model} (h : m ∈ (r.claim ms).1) : m ∈ ms := by
  fun_induction Reached.claim r ms with
  | case1 r => cases h
  | case2 r n ms hn claimed r' e ih =>
    rcases List.mem_cons.1 h with rfl | h
    · exact List.mem_cons_self ..
    · rw [e] at ih
      exact List.mem_cons_of_mem _ (ih h)
  | case3 r n ms hn ih => exact List.mem_cons_of_mem _ (ih h)

theorem mem_of_model? {name : String} (h : g.model? name = some m) : m ∈ g.models :=
  List.mem_of_find?_eq_some h

theorem mem_of_neighbours {n : Model} (h : m ∈ g.neighbours n) : m ∈ g.models := by
  obtain ⟨e, _, he⟩ := List.mem_filterMap.1 h
  split at he
  · cases he
  · exact mem_of_model? he

/-- The neighbours of a level are models of the graph. -/
theorem mem_of_offered {level : List Model} (h : m ∈ level.flatMap g.neighbours) :
    m ∈ g.models := by
  obtain ⟨_, _, near⟩ := List.mem_flatMap.1 h
  exact mem_of_neighbours near

theorem length_claimLevel (r : Reached) (level : List Model) :
    (g.claimLevel r level).1.length = level.length := by
  induction level generalizing r with
  | nil => rfl
  | cons m ms ih => rw [claimLevel, List.length_cons, List.length_cons, ih]

theorem mem_claimLevel {r : Reached} {level : List Model}
    (h : m ∈ (g.claimLevel r level).1.flatten) : m ∈ g.models := by
  induction level generalizing r with
  | nil => cases h
  | cons n ms ih =>
    rw [claimLevel, List.flatten_cons, List.mem_append] at h
    rcases h with h | h
    · exact mem_of_neighbours (mem_claim h)
    · exact ih h

theorem length_plant {level : List Model} {claimed : List (List Model)} {ts : List JoinTree}
    (h : claimed.length = level.length) : (plant wanted level claimed ts).length = level.length := by
  induction level generalizing claimed ts with
  | nil => rfl
  | cons m ms ih =>
    cases claimed with
    | nil => cases h
    | cons c cs => rw [plant, List.length_cons, List.length_cons, ih (Nat.succ.inj h)]

theorem over_plant {ms level : List Model} {claimed : List (List Model)} {ts : List JoinTree}
    (hl : ∀ m ∈ level, m ∈ ms) (hts : ∀ t ∈ ts, t.Over ms) :
    ∀ t ∈ plant wanted level claimed ts, t.Over ms := by
  intro t ht
  induction level generalizing claimed ts with
  | nil => cases ht
  | cons m level ih =>
    cases claimed with
    | nil => cases ht
    | cons c cs =>
      rw [plant] at ht
      rcases List.mem_cons.1 ht with rfl | ht
      · refine .node (hl m (List.mem_cons_self ..)) ?_
        intro s hs
        exact hts s (List.mem_of_mem_take hs)
      · refine ih (fun n hn => hl n (List.mem_cons_of_mem _ hn)) ?_ ht
        intro s hs
        exact hts s (List.mem_of_mem_drop hs)

theorem length_grow (depth : Nat) (r : Reached) (level : List Model) :
    (g.grow wanted depth r level).length = level.length := by
  cases depth with
  | zero => rw [grow, List.length_map]
  | succ depth => exact length_plant (length_claimLevel r level)

theorem over_grow {depth : Nat} {r : Reached} {level : List Model}
    (h : ∀ m ∈ level, m ∈ g.models) : ∀ t ∈ g.grow wanted depth r level, t.Over g.models := by
  induction depth generalizing r level with
  | zero =>
    intro t ht
    obtain ⟨m, hm, rfl⟩ := List.mem_map.1 ht
    exact .node (h m hm) (fun _ hc => (List.not_mem_nil hc).elim)
  | succ depth ih => exact over_plant h (ih fun _ hm => mem_claimLevel hm)

theorem over_reach {root : Model} (h : root ∈ g.models) : (g.reach wanted root).Over g.models := by
  unfold reach
  -- one tree grows from each model of the first level, so that there is a head
  have one : (g.grow wanted g.models.length ⟨[root.name], root.granularity?⟩ [root]).length = 1 :=
    length_grow _ _ [root]
  have each : ∀ t ∈ g.grow wanted g.models.length ⟨[root.name], root.granularity?⟩ [root],
      t.Over g.models := over_grow (by simpa using h)
  cases hg : g.grow wanted g.models.length ⟨[root.name], root.granularity?⟩ [root] with
  | nil =>
    rw [hg] at one
    cases one
  | cons t ts => exact each t (hg ▸ List.mem_cons_self ..)

theorem findTree_over {t : JoinTree} (h : g.findTree wanted = .ok t) : t.Over g.models := by
  unfold findTree at h
  split at h
  · rename_i s hs
    cases h
    obtain ⟨root, hroot, rfl⟩ := List.mem_map.1 (List.mem_of_find?_eq_some hs)
    rw [roots, List.mem_mergeSort] at hroot
    exact (over_reach hroot).prune wanted
  · cases h

theorem addEdge_models (g : JoinGraph) (e : JoinEdge) : (g.addEdge e).models = g.models := by
  unfold addEdge
  dsimp only
  split <;> rfl

theorem addEdges_models (g : JoinGraph) (es : List JoinEdge) :
    (es.foldl addEdge g).models = g.models := by
  induction es generalizing g with
  | nil => rfl
  | cons e es ih => rw [List.foldl_cons, ih, addEdge_models]

theorem addJoin_models {g' : JoinGraph} {j : ModelJoin} (h : g.addJoin m j = .ok g') :
    g'.models = g.models := by
  unfold addJoin at h
  split at h
  · cases h
    rfl
  · split at h
    · cases h
    · cases h
      exact addEdges_models g _

theorem addJoins_models {g' : JoinGraph} (h : g.addJoins m = .ok g') : g'.models = g.models :=
  Result.foldlM_invariant (p := fun s => s.models = g.models) h rfl fun _ _ _ _ hj hs =>
    (addJoin_models hj).trans hs

theorem build_models {dataSources : NameSet} {models : List Model}
    (h : build dataSources models = .ok g) : g.models = models := by
  unfold build at h
  split at h
  · split at h
    · cases h
    · exact Result.foldlM_invariant (p := fun s => s.models = models) h rfl fun _ _ _ _ hj hs =>
        (addJoins_models hj).trans hs
  · cases h

end JoinGraph

end SemanticLayer
