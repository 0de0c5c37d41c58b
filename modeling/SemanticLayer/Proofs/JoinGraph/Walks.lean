import SemanticLayer.Proofs.JoinGraph.Edges
import SemanticLayer.Proofs.JoinGraph.Trees

/-!
# What a search comes across

A search offers itself the neighbours of each model it has claimed, in the order in which it
claimed them.

* `Reached.claim_append`: models that are offered one list after the other;
* `Reached.granularity?_of_mem_claim`, `Reached.settled_claim`: a claimed model agrees with the
  granularity so far, and one that is not claimed was there before or conflicts with it;
* `walk`: the models of a search, and where it ends;
* `grow_models`: the trees that grow from a level hold the models of the walk, each once;
* `claim_walk`: a search ends when the neighbours of all it has claimed have been offered;
* `Explores`, `exists_explores`: what a search from a root comes across.
-/

namespace SemanticLayer.JoinGraph

namespace Reached

variable {r : Reached} {m : Model} {ms ns : List Model}

/-- Whether a search is bound to another granularity than that of a model. -/
def ConflictsWith (r : Reached) (m : Model) : Prop :=
  ∃ h k, r.granularity? = some h ∧ m.granularity? = some k ∧ h ≠ k

theorem admits_iff : r.admits m = true ↔ m.name ∉ r.names ∧ ¬ r.ConflictsWith m := by
  unfold admits ConflictsWith
  cases r.granularity? with
  | none => simp
  | some h =>
    cases m.granularity? with
    | none => simp
    | some k => simp

theorem claim_append : r.claim (ms ++ ns) =
    ((r.claim ms).1 ++ ((r.claim ms).2.claim ns).1, ((r.claim ms).2.claim ns).2) := by
  induction ms generalizing r with
  | nil => rfl
  | cons m ms ih =>
    rw [List.cons_append, claim, claim]
    split
    · rw [ih]
      rfl
    · exact ih

/-- A search remembers the names of what it claims. -/
theorem names_claim :
    (r.claim ms).2.names = ((r.claim ms).1.map (·.name)).reverse ++ r.names := by
  induction ms generalizing r with
  | nil => rfl
  | cons m ms ih =>
    rw [claim]
    split
    · dsimp only
      rw [ih, List.map_cons, List.reverse_cons, List.append_assoc]
      rfl
    · exact ih

theorem mem_names_claim {name : String} :
    name ∈ (r.claim ms).2.names ↔ name ∈ (r.claim ms).1.map (·.name) ∨ name ∈ r.names := by
  rw [names_claim, List.mem_append, List.mem_reverse]

theorem nodup_claim (h : r.names.Nodup) : (r.claim ms).2.names.Nodup := by
  induction ms generalizing r with
  | nil => exact h
  | cons m ms ih =>
    rw [claim]
    split
    · rename_i admitted
      exact ih (List.nodup_cons.2 ⟨(admits_iff.1 admitted).1, h⟩)
    · exact ih h

/-- What is claimed was not reached before. -/
theorem new_of_mem_claim (hm : m ∈ (r.claim ms).1) : m.name ∉ r.names := by
  induction ms generalizing r with
  | nil => cases hm
  | cons n ms ih =>
    rw [claim] at hm
    split at hm
    · rename_i admitted
      rcases List.mem_cons.1 hm with rfl | hm
      · exact (admits_iff.1 admitted).1
      · exact fun known => ih hm (List.mem_cons_of_mem _ known)
    · exact ih hm

/-- A search that is bound to a granularity stays so. -/
theorem granularity?_claim_of_some {h : TimeGranularity} (hr : r.granularity? = some h) :
    (r.claim ms).2.granularity? = some h := by
  induction ms generalizing r with
  | nil => exact hr
  | cons m ms ih =>
    rw [claim]
    split
    · refine ih ?_
      rw [add, hr]
      rfl
    · exact ih hr

theorem ConflictsWith.claim (h : r.ConflictsWith m) : (r.claim ms).2.ConflictsWith m := by
  obtain ⟨h, k, hr, hm, other⟩ := h
  exact ⟨h, k, granularity?_claim_of_some hr, hm, other⟩

/-- The granularity of a model that is claimed is that of the search from then on. -/
theorem granularity?_of_mem_claim (hm : m ∈ (r.claim ms).1) {h : TimeGranularity}
    (hg : m.granularity? = some h) : (r.claim ms).2.granularity? = some h := by
  induction ms generalizing r with
  | nil => cases hm
  | cons n ms ih =>
    rw [claim] at hm ⊢
    split at hm
    · rename_i admitted
      rw [if_pos admitted]
      rcases List.mem_cons.1 hm with rfl | hm
      · refine granularity?_claim_of_some ?_
        cases hr : r.granularity? with
        | none => rw [add, hr, hg, Option.none_or]
        | some k =>
          have same : ¬ r.ConflictsWith m := (admits_iff.1 admitted).2
          by_cases e : k = h
          · rw [add, hr, e, Option.some_or]
          · exact absurd ⟨k, h, hr, hg, e⟩ same
      · exact ih hm
    · rename_i refused
      rw [if_neg refused]
      exact ih hm

/-- A model that is offered has been reached, or conflicts with the granularity of the search. -/
theorem settled_claim (hm : m ∈ ms) :
    m.name ∈ (r.claim ms).2.names ∨ (r.claim ms).2.ConflictsWith m := by
  induction ms generalizing r with
  | nil => cases hm
  | cons n ms ih =>
    rw [claim]
    split
    · rcases List.mem_cons.1 hm with rfl | hm
      · exact .inl (mem_names_claim.2 (.inr (List.mem_cons_self ..)))
      · exact ih hm
    · rename_i refused
      rcases List.mem_cons.1 hm with rfl | hm
      · rw [admits_iff, not_and_or, not_not, not_not] at refused
        rcases refused with known | conflict
        · exact .inl (mem_names_claim.2 (.inr known))
        · exact .inr conflict.claim
      · exact ih hm

end Reached

variable {g : JoinGraph} {r : Reached} {m : Model} {wanted : NameSet} {level : List Model}
  {depth : Nat}

/-! ## Levels -/

/-- A level claims what is new among the neighbours of its models. -/
theorem claim_neighbours : r.claim (level.flatMap g.neighbours) =
    ((g.claimLevel r level).1.flatten, (g.claimLevel r level).2) := by
  induction level generalizing r with
  | nil => rfl
  | cons m level ih =>
    rw [List.flatMap_cons, Reached.claim_append, ih]
    rfl

/-- The models that a search comes across with so many more levels, and where it ends. -/
def walk (g : JoinGraph) : Nat → Reached → List Model → List Model × Reached
  | 0, r, level => (level, r)
  | depth + 1, r, level =>
    let (claimed, r) := r.claim (level.flatMap g.neighbours)
    let (more, r) := g.walk depth r claimed
    (level ++ more, r)

/-- The models of the trees that are planted are those of the level and of the trees above it. -/
theorem plant_models {claimed : List (List Model)} {ts : List JoinTree}
    (hl : claimed.length = level.length) (hts : ts.length = claimed.flatten.length) :
    ((plant wanted level claimed ts).flatMap JoinTree.models).Perm
      (level ++ ts.flatMap JoinTree.models) := by
  induction level generalizing claimed ts with
  | nil =>
    have none : claimed = [] := List.eq_nil_of_length_eq_zero hl
    subst none
    rw [List.flatten_nil, List.length_nil] at hts
    rw [List.eq_nil_of_length_eq_zero hts]
    rfl
  | cons m level ih =>
    cases claimed with
    | nil => cases hl
    | cons own rest =>
      rw [List.flatten_cons, List.length_append] at hts
      have remain : (ts.drop own.length).length = rest.flatten.length := by
        rw [List.length_drop, hts]
        omega
      have later := ih (Nat.succ.inj hl) remain
      have split : ts.flatMap JoinTree.models = (ts.take own.length).flatMap JoinTree.models ++
          (ts.drop own.length).flatMap JoinTree.models := by
        rw [← List.flatMap_append, List.take_append_drop]
      rw [plant, List.flatMap_cons, split, List.cons_append]
      refine ((JoinTree.models_perm _).append later).trans ?_
      rw [List.cons_append]
      exact (List.perm_append_comm_assoc ..).cons m

/-- The trees that grow from a level hold the models of the walk, each once. -/
theorem grow_models : ((g.grow wanted depth r level).flatMap JoinTree.models).Perm
    (g.walk depth r level).1 := by
  induction depth generalizing r level with
  | zero =>
    rw [grow, walk, List.flatMap_map]
    have leaf (m : Model) : (⟨m, wantedTaxons wanted m, []⟩ : JoinTree).models = [m] := rfl
    simp only [leaf, List.flatMap_singleton', List.Perm.refl]
  | succ depth ih =>
    have claims := @claim_neighbours g r level
    rw [grow, walk, claims]
    refine (plant_models (length_claimLevel r level) (length_grow ..)).trans ?_
    exact ih.append_left level

/-! ## The end of a walk -/

theorem walk_nil : g.walk depth r [] = ([], r) := by
  induction depth with
  | zero => rfl
  | succ depth ih =>
    rw [walk, List.flatMap_nil, Reached.claim]
    dsimp only
    rw [ih, List.append_nil]

/-- A walk with enough levels ends when the neighbours of all its models have been offered: what
it claims are the new ones among them, and there are no more. -/
theorem claim_walk (nodup : r.names.Nodup) (known : ∀ n ∈ r.names, n ∈ g.models.map (·.name))
    (enough : g.models.length < depth + r.names.length) :
    ∃ new, (g.walk depth r level).1 = level ++ new ∧
      r.claim ((level ++ new).flatMap g.neighbours) = (new, (g.walk depth r level).2) := by
  induction depth generalizing r level with
  | zero =>
    have few := (nodup.subperm known).length_le
    rw [List.length_map] at few
    omega
  | succ depth ih =>
    rw [walk]
    rcases hc : r.claim (level.flatMap g.neighbours) with ⟨claimed, r'⟩
    dsimp only
    have names : r'.names = (claimed.map (·.name)).reverse ++ r.names := by
      have all := @Reached.names_claim r (level.flatMap g.neighbours)
      rwa [hc] at all
    by_cases done : claimed = []
    · subst done
      rw [walk_nil]
      exact ⟨[], rfl, by rwa [List.append_nil]⟩
    · have grown : r.names.length < r'.names.length := by
        rw [names, List.length_append, List.length_reverse, List.length_map]
        have some := List.length_pos_iff.2 done
        omega
      have nodup' : r'.names.Nodup := by
        have kept := @Reached.nodup_claim r (level.flatMap g.neighbours) nodup
        rwa [hc] at kept
      have known' : ∀ n ∈ r'.names, n ∈ g.models.map (·.name) := by
        intro n hn
        rw [names, List.mem_append, List.mem_reverse] at hn
        rcases hn with hn | hn
        · obtain ⟨m, hm, rfl⟩ := List.mem_map.1 hn
          have claimed : m ∈ (r.claim (level.flatMap g.neighbours)).1 := by rwa [hc]
          exact List.mem_map_of_mem (mem_of_offered (mem_claim claimed))
        · exact known n hn
      obtain ⟨new, walked, claims⟩ := @ih r' claimed nodup' known' (by omega)
      refine ⟨claimed ++ new, by rw [walked], ?_⟩
      rw [List.flatMap_append, Reached.claim_append, hc, claims]

/-! ## Searches from a root -/

/-- Where a search from a root starts. -/
def start (root : Model) : Reached := ⟨[root.name], root.granularity?⟩

/-- Whether a search from a root comes across some further models and ends in a state: offered the
neighbours of all these models, it claims just the further ones. -/
def Explores (g : JoinGraph) (root : Model) (new : List Model) (last : Reached) : Prop :=
  (start root).claim ((root :: new).flatMap g.neighbours) = (new, last)

namespace Explores

variable {root n : Model} {new : List Model} {last : Reached}

theorem mem_names (h : g.Explores root new last) {name : String} :
    name ∈ last.names ↔ name ∈ (root :: new).map (·.name) := by
  have names := @Reached.mem_names_claim (start root) ((root :: new).flatMap g.neighbours) name
  rw [h] at names
  rw [names, List.map_cons, List.mem_cons, start, List.mem_singleton, or_comm]

/-- No model is met twice. -/
theorem nodup (h : g.Explores root new last) : ((root :: new).map (·.name)).Nodup := by
  have nodup := @Reached.nodup_claim (start root) ((root :: new).flatMap g.neighbours)
    (List.nodup_singleton _)
  rw [Reached.names_claim, h] at nodup
  rw [List.map_cons, ← List.singleton_append]
  refine (List.perm_append_comm.nodup_iff).1 ?_
  exact ((List.reverse_perm _).append_right _).nodup_iff.1 nodup

/-- All models with times have the granularity that the search ends with. -/
theorem granularity? (h : g.Explores root new last) (hm : m ∈ root :: new) {k : TimeGranularity}
    (hk : m.granularity? = some k) : last.granularity? = some k := by
  have last_eq : ((start root).claim ((root :: new).flatMap g.neighbours)).2 = last := by rw [h]
  rw [← last_eq]
  rcases List.mem_cons.1 hm with rfl | hm
  · exact Reached.granularity?_claim_of_some hk
  · refine Reached.granularity?_of_mem_claim ?_ hk
    rw [h]
    exact hm

/-- A neighbour of a model that was met was met too, or conflicts with the granularity. -/
theorem settled (h : g.Explores root new last) (hm : m ∈ root :: new) (hn : n ∈ g.neighbours m) :
    n.name ∈ (root :: new).map (·.name) ∨ last.ConflictsWith n := by
  have offered : n ∈ (root :: new).flatMap g.neighbours := List.mem_flatMap.2 ⟨m, hm, hn⟩
  have settled := Reached.settled_claim (r := start root) offered
  rw [h] at settled
  exact settled.imp_left h.mem_names.1

theorem subset (h : g.Explores root new last) (hroot : root ∈ g.models) :
    ∀ m ∈ root :: new, m ∈ g.models := by
  refine List.forall_mem_cons.2 ⟨hroot, ?_⟩
  intro m hm
  have claimed : m ∈ ((start root).claim ((root :: new).flatMap g.neighbours)).1 := by rwa [h]
  exact mem_of_offered (mem_claim claimed)

end Explores

/-- One tree grows from a root. -/
theorem grow_root (g : JoinGraph) (wanted : NameSet) (root : Model) :
    g.grow wanted g.models.length (start root) [root] = [g.reach wanted root] := by
  have one : (g.grow wanted g.models.length (start root) [root]).length = 1 := length_grow _ _ _
  obtain ⟨t, ht⟩ := List.length_eq_one_iff.1 one
  unfold reach
  rw [ht, show (⟨[root.name], root.granularity?⟩ : Reached) = start root from rfl, ht]
  rfl

/-- The models that can be joined to a root are those that a search from it comes across. -/
theorem exists_explores (wanted : NameSet) {root : Model} (hroot : root ∈ g.models) : ∃ new last,
    g.Explores root new last ∧ (g.reach wanted root).models.Perm (root :: new) ∧
      g.walk g.models.length (start root) [root] = (root :: new, last) := by
  have known : ∀ n ∈ (start root).names, n ∈ g.models.map (·.name) := by
    intro n hn
    cases List.mem_singleton.1 hn
    exact List.mem_map_of_mem hroot
  obtain ⟨new, walked, claims⟩ := @claim_walk g (start root) [root] g.models.length
    (List.nodup_singleton _) known (Nat.lt_succ_self _)
  have models := @grow_models g (start root) wanted [root] g.models.length
  rw [grow_root, List.flatMap_singleton, walked] at models
  exact ⟨new, _, claims, models, Prod.ext walked rfl⟩

end SemanticLayer.JoinGraph
