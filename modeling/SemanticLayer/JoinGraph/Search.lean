import SemanticLayer.JoinGraph.Tree

/-!
# The search for a join tree

Models are tried as roots, the most promising first.  From a root the search follows, nearest
models first, the edges that cannot multiply rows, and never joins models of different time
granularities.  The first root that reaches every wanted taxon wins; what its tree does not need
is cut off.
-/

namespace SemanticLayer.JoinGraph

/-- Identifiers of levels of an account; models of a higher level are smaller. -/
def levelRanks : List (String × Nat) :=
  [("ad_id", 100), ("adgroup_id", 1000), ("campaign_id", 10000)]

/-- The rank of the lowest level that identifies a model's rows. -/
def levelRank (m : Model) : Nat :=
  let identifiers := m.identifiers.map (·.taxon)
  ((levelRanks.find? fun (taxon, _) => taxon ∈ identifiers).map (·.2)).getD 0

def wantedTaxons (wanted : NameSet) (m : Model) : NameSet := wanted.filter m.hasTaxon

/-- Roots are compared by these numbers in turn, and a greater one is tried first. -/
def promise (wanted : NameSet) (m : Model) : List Int :=
  [(wantedTaxons wanted m).size, -m.identifiers.length, TimeGranularity.rank m.granularity?,
    levelRank m]

/-- The models as roots, the most promising first; equals keep their order. -/
def roots (g : JoinGraph) (wanted : NameSet) : List Model :=
  g.models.mergeSort fun a b => compare (promise wanted a) (promise wanted b) != .lt

/-- What a search has come across. -/
structure Reached where
  names : List String
  granularity? : Option TimeGranularity

namespace Reached

/-- Whether a model is new, and its granularity the one so far. -/
def admits (r : Reached) (m : Model) : Bool :=
  m.name ∉ r.names &&
    match r.granularity?, m.granularity? with
    | some g, some h => g = h
    | _, _ => true

def add (r : Reached) (m : Model) : Reached :=
  ⟨m.name :: r.names, r.granularity?.or m.granularity?⟩

/-- The models of a list that can be added one after another. -/
def claim (r : Reached) : List Model → List Model × Reached
  | [] => ([], r)
  | m :: ms =>
    if r.admits m then
      let (claimed, r) := (r.add m).claim ms
      (m :: claimed, r)
    else r.claim ms

end Reached

/-- The models that can be joined to a model without multiplying its rows. -/
def neighbours (g : JoinGraph) (m : Model) : List Model :=
  (g.edgesFrom m.name).filterMap fun e =>
    if e.relationship.causesFanout then none else g.model? e.target

/-- The new models next to each model of a level. -/
def claimLevel (g : JoinGraph) (r : Reached) : List Model → List (List Model) × Reached
  | [] => ([], r)
  | m :: ms =>
    let (claimed, r) := r.claim (g.neighbours m)
    let (rest, r) := g.claimLevel r ms
    (claimed :: rest, r)

/-- Gives each model of a level its share of the trees of the next level. -/
def plant (wanted : NameSet) : List Model → List (List Model) → List JoinTree → List JoinTree
  | m :: ms, claimed :: rest, ts =>
    ⟨m, wantedTaxons wanted m, ts.take claimed.length⟩ ::
      plant wanted ms rest (ts.drop claimed.length)
  | _, _, _ => []

/-- The trees that grow from the models of a level, with so many more levels. -/
def grow (g : JoinGraph) (wanted : NameSet) : Nat → Reached → List Model → List JoinTree
  | 0, _, level => level.map fun m => ⟨m, wantedTaxons wanted m, []⟩
  | depth + 1, r, level =>
    let (claimed, r) := g.claimLevel r level
    plant wanted level claimed (g.grow wanted depth r claimed.flatten)

/-- Everything that can be joined to a root.  Each level claims a model, so there are no more
levels than models. -/
def reach (g : JoinGraph) (wanted : NameSet) (root : Model) : JoinTree :=
  (g.grow wanted g.models.length ⟨[root.name], root.granularity?⟩ [root]).headD default

end JoinGraph

namespace JoinTree

/-- A subtree, and what it has of the taxons that its parent needs. -/
structure Offer where
  taxons : NameSet
  tree : JoinTree

instance : Inhabited Offer := ⟨⟨.empty, default⟩⟩

/-- The trees that bring a taxon which none before them brings. -/
def keepUseful (brought : NameSet) : List Offer → List JoinTree
  | [] => []
  | o :: os =>
    if o.taxons.isSubset brought then keepUseful brought os
    else o.tree :: keepUseful (brought.union o.taxons) os

mutual

/-- Cuts off the subtrees without use, those with more of the needed taxons being kept first. -/
def prune (needed : NameSet) : JoinTree → JoinTree
  | ⟨model, taxons, children⟩ =>
    let missing := needed.diff taxons
    let offers := (offersOf missing children).mergeSort fun a b => b.taxons.size ≤ a.taxons.size
    ⟨model, taxons, keepUseful .empty offers⟩

def offersOf (missing : NameSet) : List JoinTree → List Offer
  | [] => []
  | t :: ts => ⟨t.selectable.inter missing, t.prune missing⟩ :: offersOf missing ts

end

end JoinTree

/-- A tree of joins that reaches all wanted taxons. -/
def JoinGraph.findTree (g : JoinGraph) (wanted : NameSet) : Result JoinTree :=
  match ((g.roots wanted).map (g.reach wanted)).find? fun t => wanted.isSubset t.selectable with
  | some t => .ok (t.prune wanted)
  | none => .error (.impossibleCombination wanted g.dataSource)

end SemanticLayer
