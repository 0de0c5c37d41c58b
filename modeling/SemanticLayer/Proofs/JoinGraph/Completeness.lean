import Mathlib.Logic.Relation
import SemanticLayer.Proofs.JoinGraph.Soundness

/-!
# Which taxons can be joined

A search is bound to the first granularity that it meets, and finds everything that can be joined
at that granularity.

* `Covers`: models that can be joined to a root and have all wanted taxons;
* `MeetsFirst`: the granularity of the first model with times on the way from a root;
* `meetsFirst_of_walk`: a search is bound to the granularity that is met first;
* `findTree_eq_ok_iff`: a tree is found exactly if models that agree with this granularity cover
  the wanted taxons.
-/

namespace SemanticLayer

namespace JoinGraph

variable {g : JoinGraph} {wanted dataSources : NameSet} {ms : List Model} {root : Model}

/-- Whether one model can be joined to another without multiplying its rows. -/
def JoinsSafely (g : JoinGraph) (m n : Model) : Prop :=
  ∃ e, g.edge? m.name n.name = some e ∧ e.relationship.causesFanout = false

instance (g : JoinGraph) (m n : Model) : Decidable (g.JoinsSafely m n) :=
  decidable_of_iff ((g.edge? m.name n.name).any fun e => !e.relationship.causesFanout) <| by
    simp [JoinsSafely, Option.any_eq_true]

/-- Whether some models have all wanted taxons, and can be joined to a root, each over others of
them, without mixing granularities. -/
structure Covers (g : JoinGraph) (wanted : NameSet) (root : Model) (ms : List Model) : Prop where
  rooted : root ∈ ms
  models : ∀ m ∈ ms, m ∈ g.models
  reachable : ∀ m ∈ ms, Relation.ReflTransGen (fun a b => b ∈ ms ∧ g.JoinsSafely a b) root m
  granularity : ∀ m ∈ ms, ∀ n ∈ ms, ∀ h k,
    m.granularity? = some h → n.granularity? = some k → h = k
  taxons : ∀ taxon ∈ wanted, ∃ m ∈ ms, m.hasTaxon taxon = true

/-- The models at the ends of all ways with so many joins from a root, in the order in which a
search looks at them. -/
def walkEnds (g : JoinGraph) (root : Model) : Nat → List Model
  | 0 => [root]
  | n + 1 => (g.walkEnds root n).flatMap g.neighbours

/-- Whether a granularity is that of the first model with times among those nearest to a root. -/
def MeetsFirst (g : JoinGraph) (root : Model) (h : TimeGranularity) : Prop :=
  ∃ n, (g.walkEnds root n).findSome? (·.granularity?) = some h ∧
    ∀ k < n, (g.walkEnds root k).findSome? (·.granularity?) = none

theorem MeetsFirst.unique {h k : TimeGranularity} (hh : g.MeetsFirst root h)
    (hk : g.MeetsFirst root k) : h = k := by
  obtain ⟨m, atM, beforeM⟩ := hh
  obtain ⟨n, atN, beforeN⟩ := hk
  rcases Nat.lt_trichotomy m n with earlier | rfl | later
  · cases atM.symm.trans (beforeN m earlier)
  · exact Option.some.inj (atM.symm.trans atN)
  · cases atN.symm.trans (beforeM n later)

/-! ## The granularity of a search -/

theorem findSome?_flatMap {α β γ : Type} (f : α → List β) (p : β → Option γ) (xs : List α) :
    (xs.flatMap f).findSome? p = xs.findSome? fun x => (f x).findSome? p := by
  induction xs with
  | nil => rfl
  | cons x xs ih =>
    rw [List.flatMap_cons, List.findSome?_append, ih, List.findSome?_cons]
    cases (f x).findSome? p <;> rfl

namespace Reached

variable {r : Reached} {ns : List Model}

/-- What a search that is not bound refuses was reached before. -/
theorem mem_names_of_refused {m : Model} (unbound : r.granularity? = none)
    (h : ¬ r.admits m = true) : m.name ∈ r.names := by
  by_contra new
  apply h
  refine admits_iff.2 ⟨new, ?_⟩
  rintro ⟨k, _, bound, _, _⟩
  cases unbound.symm.trans bound

/-- A search that is not bound yet is bound by the first model with times that it is offered, if
what it has reached has no times. -/
theorem granularity?_claim_of_none (unbound : r.granularity? = none)
    (timeless : ∀ n ∈ ns, n.name ∈ r.names → n.granularity? = none)
    (alike : ∀ m ∈ ns, ∀ n ∈ ns, m.name = n.name → m = n) :
    (r.claim ns).2.granularity? = ns.findSome? (·.granularity?) := by
  induction ns generalizing r with
  | nil => exact unbound
  | cons m ns ih =>
    have later : ∀ a ∈ ns, ∀ b ∈ ns, a.name = b.name → a = b := fun a ha b hb =>
      alike a (List.mem_cons_of_mem _ ha) b (List.mem_cons_of_mem _ hb)
    rw [claim, List.findSome?_cons]
    split
    · cases hm : m.granularity? with
      | some h =>
        refine granularity?_claim_of_some ?_
        rw [add, unbound, hm, Option.none_or]
      | none =>
        refine ih ?_ ?_ later
        · rw [add, unbound, hm, Option.none_or]
        · intro n hn known
          rcases List.mem_cons.1 known with same | known
          · rw [alike n (List.mem_cons_of_mem _ hn) m (List.mem_cons_self ..) same]
            exact hm
          · exact timeless n (List.mem_cons_of_mem _ hn) known
    · rename_i refused
      rw [timeless m (List.mem_cons_self ..) (mem_names_of_refused unbound refused)]
      exact ih unbound (fun n hn => timeless n (List.mem_cons_of_mem _ hn)) later

/-- As long as a search is not bound, it finds the same first among the models it claims as among
those it is offered, leaving out what it has reached. -/
theorem findSome?_claim {α : Type} {p : Model → Option α}
    (unbound : (r.claim ns).2.granularity? = none)
    (known : ∀ n ∈ ns, n.name ∈ r.names → p n = none)
    (alike : ∀ m ∈ ns, ∀ n ∈ ns, m.name = n.name → m = n) :
    ns.findSome? p = (r.claim ns).1.findSome? p := by
  have start (r : Reached) (ns : List Model) (h : (r.claim ns).2.granularity? = none) :
      r.granularity? = none := by
    cases bound : r.granularity? with
    | none => rfl
    | some k => cases (granularity?_claim_of_some bound).symm.trans h
  induction ns generalizing r with
  | nil => rfl
  | cons m ns ih =>
    have later : ∀ a ∈ ns, ∀ b ∈ ns, a.name = b.name → a = b := fun a ha b hb =>
      alike a (List.mem_cons_of_mem _ ha) b (List.mem_cons_of_mem _ hb)
    have free := start r (m :: ns) unbound
    rw [claim] at unbound ⊢
    split at unbound
    · rename_i admitted
      rw [if_pos admitted, List.findSome?_cons, List.findSome?_cons]
      cases hm : p m with
      | some a => rfl
      | none =>
        refine ih unbound ?_ later
        intro n hn seen
        rcases List.mem_cons.1 seen with same | seen
        · rw [alike n (List.mem_cons_of_mem _ hn) m (List.mem_cons_self ..) same]
          exact hm
        · exact known n (List.mem_cons_of_mem _ hn) seen
    · rename_i refused
      rw [if_neg refused, List.findSome?_cons,
        known m (List.mem_cons_self ..) (mem_names_of_refused free refused)]
      exact ih unbound (fun n hn => known n (List.mem_cons_of_mem _ hn)) later

end Reached

/-- What is known of a search after so many levels, as long as it has met no times.  The models at
the ends of the ways are those of its level, but for what it has reached before. -/
structure IsFrontier (g : JoinGraph) (root : Model) (n : Nat) (r : Reached) (level : List Model) :
    Prop where
  unbound : r.granularity? = none
  timeless : ∀ m ∈ g.models, m.name ∈ r.names → m.granularity? = none
  earlier : ∀ k ≤ n, (g.walkEnds root k).findSome? (·.granularity?) = none
  ahead : ∀ p : Model → Option TimeGranularity,
    (∀ m ∈ g.models, m.name ∈ r.names → m ∉ level → p m = none) →
      (g.walkEnds root n).findSome? p = level.findSome? p
  closed : ∀ m ∈ g.models, m.name ∈ r.names → m ∉ level →
    ∀ b ∈ g.neighbours m, b.name ∈ r.names

section
variable (hb : build dataSources ms = .ok g)
include hb

/-- The root alone is the first frontier. -/
theorem isFrontier_start (hroot : root ∈ g.models) (timeless : root.granularity? = none) :
    g.IsFrontier root 0 (start root) [root] := by
  have only {m : Model} (hm : m ∈ g.models) (known : m.name ∈ (start root).names) : m = root :=
    eq_of_name_eq hb hm hroot (List.mem_singleton.1 known)
  constructor
  case unbound => exact timeless
  case timeless =>
    intro m hm known
    rw [only hm known]
    exact timeless
  case earlier =>
    intro k hk
    rw [Nat.le_zero.1 hk, walkEnds, List.findSome?_singleton]
    exact timeless
  case ahead => exact fun _ _ => rfl
  case closed =>
    intro m hm known other
    exact absurd (List.mem_singleton.2 (only hm known)) other

variable {n : Nat} {r : Reached} {level : List Model}

theorem offered_alike : ∀ m ∈ level.flatMap g.neighbours, ∀ n ∈ level.flatMap g.neighbours,
    m.name = n.name → m = n := by
  intro m hm n hn
  exact eq_of_name_eq hb (mem_of_offered hm) (mem_of_offered hn)

omit hb in
/-- The ways one join longer lead to what the level offers, but for what was reached before. -/
theorem IsFrontier.findSome?_offered (h : g.IsFrontier root n r level)
    {p : Model → Option TimeGranularity}
    (known : ∀ m ∈ g.models, m.name ∈ r.names → p m = none) :
    (g.walkEnds root (n + 1)).findSome? p = (level.flatMap g.neighbours).findSome? p := by
  rw [walkEnds, findSome?_flatMap, findSome?_flatMap]
  refine h.ahead _ ?_
  intro m hm seen other
  refine List.findSome?_eq_none_iff.2 ?_
  intro b near
  exact known b (mem_of_neighbours near) (h.closed m hm seen other b near)

/-- The first times that the ways one join longer meet are those that a level is bound to. -/
theorem IsFrontier.granularity?_claim (h : g.IsFrontier root n r level) :
    (g.walkEnds root (n + 1)).findSome? (·.granularity?) =
      (r.claim (level.flatMap g.neighbours)).2.granularity? := by
  rw [h.findSome?_offered h.timeless]
  refine (Reached.granularity?_claim_of_none h.unbound ?_ (offered_alike hb)).symm
  intro m hm known
  exact h.timeless m (mem_of_offered hm) known

/-- What a level claims is the next frontier, if it meets no times. -/
theorem IsFrontier.next (h : g.IsFrontier root n r level) {claimed : List Model} {r' : Reached}
    (hc : r.claim (level.flatMap g.neighbours) = (claimed, r')) (unbound : r'.granularity? = none) :
    g.IsFrontier root (n + 1) r' claimed := by
  have names {name : String} :
      name ∈ r'.names ↔ name ∈ claimed.map (·.name) ∨ name ∈ r.names := by
    have all := @Reached.mem_names_claim r (level.flatMap g.neighbours) name
    rwa [hc] at all
  have fromOffers : ∀ m ∈ claimed, m ∈ g.models := by
    intro m hm
    have claims : m ∈ (r.claim (level.flatMap g.neighbours)).1 := by rwa [hc]
    exact mem_of_offered (mem_claim claims)
  have source {m : Model} (hm : m ∈ g.models) (known : m.name ∈ r'.names) :
      m ∈ claimed ∨ m.name ∈ r.names := by
    refine (names.1 known).imp_left ?_
    intro claims
    obtain ⟨m', hm', same⟩ := List.mem_map.1 claims
    rwa [eq_of_name_eq hb hm (fromOffers m' hm') same.symm]
  have unbound' : (r.claim (level.flatMap g.neighbours)).2.granularity? = none := by
    rw [hc]
    exact unbound
  constructor
  case unbound => exact unbound
  case timeless =>
    intro m hm known
    rcases source hm known with claims | known
    · cases times : m.granularity? with
      | none => rfl
      | some k =>
        have claims : m ∈ (r.claim (level.flatMap g.neighbours)).1 := by rwa [hc]
        cases (Reached.granularity?_of_mem_claim claims times).symm.trans unbound'
    · exact h.timeless m hm known
  case earlier =>
    intro k hk
    rcases Nat.lt_or_ge n k with last | before
    · rw [Nat.le_antisymm hk last, h.granularity?_claim hb, unbound']
    · exact h.earlier k before
  case ahead =>
    intro p reached
    have before : ∀ m ∈ g.models, m.name ∈ r.names → p m = none := by
      intro m hm known
      refine reached m hm (names.2 (.inr known)) ?_
      intro claims
      have new := @Reached.new_of_mem_claim r m (level.flatMap g.neighbours) (by rwa [hc])
      exact new known
    have same := @Reached.findSome?_claim r (level.flatMap g.neighbours) _ p unbound' ?_
      (offered_alike hb)
    · rw [h.findSome?_offered before, same, hc]
    · intro m hm known
      exact before m (mem_of_offered hm) known
  case closed =>
    intro m hm known other b near
    have reached := (source hm known).resolve_left other
    by_cases own : m ∈ level
    · have offered : b ∈ level.flatMap g.neighbours := List.mem_flatMap.2 ⟨m, own, near⟩
      have settled := @Reached.settled_claim r b _ offered
      rw [hc] at settled
      refine settled.resolve_right ?_
      rintro ⟨k, _, bound, _, _⟩
      cases unbound.symm.trans bound
    · exact names.2 (.inr (h.closed m hm reached own b near))

omit hb in
theorem granularity?_walk_of_some {depth : Nat} {h : TimeGranularity}
    (hr : r.granularity? = some h) : (g.walk depth r level).2.granularity? = some h := by
  induction depth generalizing r level with
  | zero => exact hr
  | succ depth ih => exact ih (Reached.granularity?_claim_of_some hr)

/-- A search is bound to the granularity that is met first. -/
theorem meetsFirst_of_walk {depth : Nat} {h : TimeGranularity}
    (frontier : g.IsFrontier root n r level)
    (bound : (g.walk depth r level).2.granularity? = some h) : g.MeetsFirst root h := by
  induction depth generalizing n r level with
  | zero => cases frontier.unbound.symm.trans bound
  | succ depth ih =>
    rw [walk] at bound
    rcases hc : r.claim (level.flatMap g.neighbours) with ⟨claimed, r'⟩
    rw [hc] at bound
    have first := frontier.granularity?_claim hb
    rw [hc] at first
    cases now : r'.granularity? with
    | none => exact ih (frontier.next hb hc now) bound
    | some k =>
      have same := (granularity?_walk_of_some now).symm.trans bound
      refine ⟨n + 1, ?_, ?_⟩
      · rw [first, now, same]
      · exact fun k hk => frontier.earlier k (Nat.le_of_lt_succ hk)

theorem meetsFirst_of_bound (hroot : root ∈ g.models) {depth : Nat} {h : TimeGranularity}
    (bound : (g.walk depth (start root) [root]).2.granularity? = some h) : g.MeetsFirst root h := by
  cases own : root.granularity? with
  | none => exact meetsFirst_of_walk hb (isFrontier_start hb hroot own) bound
  | some k =>
    have same := (granularity?_walk_of_some (r := start root) own).symm.trans bound
    refine ⟨0, ?_, fun k hk => (Nat.not_lt_zero k hk).elim⟩
    rw [walkEnds, List.findSome?_singleton, own, same]

end

/-! ## What is found -/

/-- The models of a tree can be joined to its root one over the other. -/
theorem reachable_of_isGrown (hb : build dataSources ms = .ok g) {t s : JoinTree}
    (h : t.IsGrown g wanted) (hs : s ∈ t.breadthFirst) {within : List Model}
    (all : ∀ m ∈ t.models, m ∈ within) :
    Relation.ReflTransGen (fun a b => b ∈ within ∧ g.JoinsSafely a b) t.model s.model := by
  induction h with
  | @node m children near hc ih =>
    rcases JoinTree.mem_breadthFirst.1 hs with rfl | ⟨c, hchild, below⟩
    · exact .refl
    · have inTree : ∀ m ∈ c.models, m ∈ within := by
        intro m hm
        obtain ⟨s, hs, rfl⟩ := JoinTree.mem_models.1 hm
        exact all s.model (JoinTree.mem_models.2
          ⟨s, JoinTree.mem_breadthFirst.2 (.inr ⟨c, hchild, hs⟩), rfl⟩)
      have first : c.model ∈ within := inTree _ c.model_mem_models
      have safe : g.JoinsSafely m c.model := ((mem_neighbours hb).1 (near c hchild)).2
      exact .head ⟨first, safe⟩ (ih c hchild below inTree)

/-- Models that cover the wanted taxons are all met by a search, if they agree with the granularity
that it is bound to. -/
theorem Covers.reachesAll (hb : build dataSources ms = .ok g) {covering : List Model}
    (h : g.Covers wanted root covering)
    (agrees : ∀ h, g.MeetsFirst root h → ∀ m ∈ covering, ∀ k, m.granularity? = some k → k = h) :
    g.ReachesAll wanted root := by
  have hroot := h.models root h.rooted
  obtain ⟨new, last, explores, perm, walked⟩ := exists_explores wanted hroot
  have met {m : Model}
      (path : Relation.ReflTransGen (fun a b => b ∈ covering ∧ g.JoinsSafely a b) root m) :
      m ∈ root :: new := by
    induction path with
    | refl => exact List.mem_cons_self ..
    | @tail a b _ step ih =>
      obtain ⟨covers, safe⟩ := step
      have near : b ∈ g.neighbours a := (mem_neighbours hb).2 ⟨h.models b covers, safe⟩
      rcases explores.settled ih near with known | ⟨k, k', bound, times, other⟩
      · obtain ⟨b', hb', same⟩ := List.mem_map.1 known
        rwa [eq_of_name_eq hb (h.models b covers) (explores.subset hroot b' hb') same.symm]
      · have first := meetsFirst_of_bound hb hroot (by rw [walked]; exact bound)
        exact absurd (agrees k first b covers k' times).symm other
  intro taxon wants
  obtain ⟨m, hm, has⟩ := h.taxons taxon wants
  obtain ⟨s, hs, rfl⟩ := JoinTree.mem_models.1 (perm.mem_iff.2 (met (h.reachable m hm)))
  refine JoinTree.mem_selectable_iff.2 ⟨s, hs, ?_⟩
  rw [((isGrown_reach g wanted root).of_mem_breadthFirst hs).taxons]
  exact SortedSet.mem_filter.2 ⟨wants, has⟩

/-- The models of a tree that is found cover the wanted taxons, and agree with the granularity that
is met first from its root. -/
theorem covers_of_findTree (hb : build dataSources ms = .ok g) {t : JoinTree}
    (h : g.findTree wanted = .ok t) : g.Covers wanted t.model t.models ∧
      ∀ h, g.MeetsFirst t.model h → ∀ m ∈ t.models, ∀ k, m.granularity? = some k → k = h := by
  have sound := findTree_isSound hb h
  obtain ⟨root, hroot, rfl, all⟩ := findTree_eq_ok h
  have grown := (isGrown_reach g wanted root).prune wanted
  have model : ((g.reach wanted root).prune wanted).model = root := by
    rw [JoinTree.model_prune, model_reach]
  constructor
  · constructor
    case rooted => exact JoinTree.model_mem_models _
    case models => exact sound.models
    case reachable =>
      intro m hm
      obtain ⟨s, hs, rfl⟩ := JoinTree.mem_models.1 hm
      exact reachable_of_isGrown hb grown hs fun _ hm => hm
    case granularity => exact sound.granularity
    case taxons =>
      intro taxon wants
      obtain ⟨s, hs, has⟩ := JoinTree.mem_selectable_iff.1
        (JoinTree.mem_selectable_prune wants (all taxon wants))
      exact ⟨s.model, List.mem_map_of_mem hs, ((sound.taxons s hs taxon).1 has).2⟩
  · intro h first m hm k times
    rw [model] at first
    obtain ⟨new, last, explores, perm, walked⟩ := exists_explores wanted hroot
    have met := perm.subset ((JoinTree.subperm_models_prune _ wanted).subset hm)
    have bound := explores.granularity? met times
    exact (meetsFirst_of_bound hb hroot (by rw [walked]; exact bound)).unique first

/-- A join tree is found exactly if some models cover the wanted taxons that agree with the
granularity that is met first from their root; else the combination of taxons is refused. -/
theorem findTree_eq_ok_iff (hb : build dataSources ms = .ok g) (wanted : NameSet) :
    ((∃ t, g.findTree wanted = .ok t) ↔ ∃ root covering, g.Covers wanted root covering ∧
      ∀ h, g.MeetsFirst root h → ∀ m ∈ covering, ∀ k, m.granularity? = some k → k = h) ∧
    ((∃ t, g.findTree wanted = .ok t) ∨
      g.findTree wanted = .error (.impossibleCombination wanted g.dataSource)) := by
  refine ⟨⟨?_, ?_⟩, ?_⟩
  · rintro ⟨t, ht⟩
    exact ⟨t.model, t.models, covers_of_findTree hb ht⟩
  · rintro ⟨root, covering, covers, agrees⟩
    exact exists_findTree (covers.models root covers.rooted) (covers.reachesAll hb agrees)
  · unfold findTree
    split
    · exact .inl ⟨_, rfl⟩
    · exact .inr rfl

end JoinGraph

/-- Accounts that are joined to other models, to the last one first. -/
def accountModel (targets : List String) : Model :=
  .ofTaxons "accounts" ["account_id", "account_name"]
    (targets.map fun target => ⟨.left, .oneToOne, some .outgoing, target, ["account_id"]⟩)

def dailyModel : Model := .ofTaxons "daily" ["account_id", "fb|date", "spend"] []

def hourlyModel : Model := .ofTaxons "hourly" ["account_id", "fb|date_hour", "clicks"] []

def accountModels (targets : List String) : List Model :=
  [accountModel targets, dailyModel, hourlyModel]

namespace JoinGraph

/-- The daily spend of accounts is on models that can be joined, in whatever order the accounts
declare their joins. -/
theorem covers_accounts {targets : List String}
    (hb : build dataSources (accountModels targets) = .ok g)
    (timeless : (accountModel targets).granularity? = none)
    (named : (accountModel targets).hasTaxon "account_name" = true)
    (joined : g.JoinsSafely (accountModel targets) dailyModel) :
    g.Covers (.ofList ["account_name", "spend"]) (accountModel targets)
      [accountModel targets, dailyModel] := by
  have times {m : Model} (hm : m ∈ [accountModel targets, dailyModel]) {h : TimeGranularity}
      (hg : m.granularity? = some h) : h = .day := by
    rcases List.mem_pair.1 hm with rfl | rfl
    · cases timeless.symm.trans hg
    · have daily : dailyModel.granularity? = some .day := by decide +kernel
      exact Option.some.inj (hg.symm.trans daily)
  constructor
  case rooted => exact List.mem_cons_self ..
  case models =>
    intro m hm
    rw [build_models hb]
    rcases List.mem_pair.1 hm with rfl | rfl
    · exact List.mem_cons_self ..
    · exact List.mem_cons_of_mem _ (List.mem_cons_self ..)
  case reachable =>
    intro m hm
    rcases List.mem_pair.1 hm with rfl | rfl
    · exact .refl
    · exact .single ⟨hm, joined⟩
  case granularity => exact fun m hm n hn h k hh hk => (times hm hh).trans (times hn hk).symm
  case taxons =>
    intro taxon wants
    rcases List.mem_pair.1 (SortedSet.mem_ofList.1 wants) with rfl | rfl
    · exact ⟨_, List.mem_cons_self .., named⟩
    · exact ⟨_, List.mem_cons_of_mem _ (List.mem_singleton_self _), by decide +kernel⟩

/-- If the daily model comes first, the daily spend of accounts is found. -/
theorem findTree_eq_ok_daily :
    ∃ g, build (.ofList ["fb"]) (accountModels ["hourly", "daily"]) = .ok g ∧
      ∃ t, g.findTree (.ofList ["account_name", "spend"]) = .ok t := by
  have checked : (build (.ofList ["fb"]) (accountModels ["hourly", "daily"])).toOption.any (fun g =>
      g.JoinsSafely (accountModel ["hourly", "daily"]) dailyModel ∧
      (g.walkEnds (accountModel ["hourly", "daily"]) 0).findSome? (·.granularity?) = none ∧
      (g.walkEnds (accountModel ["hourly", "daily"]) 1).findSome? (·.granularity?) =
        some .day) := by
    decide +kernel
  obtain ⟨g, hg, checked⟩ := Result.ok_of_any checked
  obtain ⟨joined, atRoot, next⟩ := of_decide_eq_true checked
  have timeless : (accountModel ["hourly", "daily"]).granularity? = none := by decide +kernel
  have covers := covers_accounts hg timeless (by decide +kernel) joined
  have first : g.MeetsFirst (accountModel ["hourly", "daily"]) .day := by
    refine ⟨1, next, ?_⟩
    intro k hk
    rwa [Nat.lt_one_iff.1 hk]
  refine ⟨g, hg, (findTree_eq_ok_iff hg _).1.2 ⟨_, _, covers, ?_⟩⟩
  intro h met m hm k times
  have daily : dailyModel.granularity? = some .day := by decide +kernel
  rw [met.unique first]
  exact covers.granularity m hm dailyModel (List.mem_cons_of_mem _ (List.mem_singleton_self _)) k
    .day times daily

/-- If the hourly model comes first, the daily spend of accounts is refused, though it can be
joined. -/
theorem findTree_refuses_covered : ∃ g root covering,
    build (.ofList ["fb"]) (accountModels ["daily", "hourly"]) = .ok g ∧
      g.Covers (.ofList ["account_name", "spend"]) root covering ∧
      g.findTree (.ofList ["account_name", "spend"]) =
        .error (.impossibleCombination (.ofList ["account_name", "spend"]) g.dataSource) := by
  have checked : (build (.ofList ["fb"]) (accountModels ["daily", "hourly"])).toOption.any (fun g =>
      g.JoinsSafely (accountModel ["daily", "hourly"]) dailyModel ∧
      ∀ root ∈ g.models, ¬ g.ReachesAll (.ofList ["account_name", "spend"]) root) := by
    decide +kernel
  obtain ⟨g, hg, checked⟩ := Result.ok_of_any checked
  obtain ⟨joined, none⟩ := of_decide_eq_true checked
  have timeless : (accountModel ["daily", "hourly"]).granularity? = .none := by decide +kernel
  have covers := covers_accounts hg timeless (by decide +kernel) joined
  exact ⟨g, _, _, hg, covers, findTree_eq_error none⟩

end JoinGraph

end SemanticLayer
