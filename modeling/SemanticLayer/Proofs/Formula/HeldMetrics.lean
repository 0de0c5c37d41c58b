import SemanticLayer.Proofs.Formula.Simplified

/-!
# The metrics that a node holds

* `Node.metricsThrough`: the metrics in a node that are reached through nodes of one kind;
* `Node.metrics`, `Node.openMetrics`: all metrics in a node, and those outside of running totals;
* `Node.DividesWithin`: how deep ratios stand in each other;
* `Node.IsInScope`, `Node.Whole`: a node whose parts are all there and hold metrics and ratios only
  where their values come from.
-/

namespace SemanticLayer.Formula

namespace Node

variable {ctx : Context}

/-! ## Metrics -/

/-- Whether a node is a metric that is not computed.  A computed one is read through its
calculation. -/
def isMetricUse : Node → Bool
  | .taxon u _ => u.isMetric
  | .attribute u _ _ => u.isMetric
  | _ => false

mutual

/-- The metrics in a node that are reached through nodes of one kind. -/
def metricsThrough (into : Node → Bool) : Node → List Node
  | .integer .. => []
  | .decimal .. => []
  | .text .. => []
  | .bool .. => []
  | .column .. => []
  | .paren n place => if into (.paren n place) then n.metricsThrough into else []
  | .taxon u place => if u.isMetric then [.taxon u place] else []
  | .attribute u sql place => if u.isMetric then [.attribute u sql place] else []
  | .computed u n place => if into (.computed u n place) then n.metricsThrough into else []
  | .binary op l r place =>
    if into (.binary op l r place) then l.metricsThrough into ++ r.metricsThrough into else []
  | .not n place => if into (.not n place) then n.metricsThrough into else []
  | .isNull n negated place =>
    if into (.isNull n negated place) then n.metricsThrough into else []
  | .call f args single place =>
    if into (.call f args single place) then metricsThroughEach into args else []
  | .transition t n a label? place =>
    if into (.transition t n a label? place) then n.metricsThrough into else []
  | .root n place => if into (.root n place) then n.metricsThrough into else []

def metricsThroughEach (into : Node → Bool) : List Node → List Node
  | [] => []
  | n :: ns => n.metricsThrough into ++ metricsThroughEach into ns

end

section
variable {into : Node → Bool} {r : Node}

theorem mem_metricsThroughEach {ns : List Node} :
    r ∈ metricsThroughEach into ns ↔ ∃ n ∈ ns, r ∈ n.metricsThrough into := by
  induction ns with
  | nil => simp [metricsThroughEach]
  | cons n ns ih => rw [metricsThroughEach, List.mem_append, ih, List.exists_mem_cons_iff]

theorem mem_metricsThrough {n : Node} : r ∈ n.metricsThrough into ↔
    r = n ∧ n.isMetricUse = true ∨
      into n = true ∧ ∃ c ∈ n.children, r ∈ c.metricsThrough into := by
  cases n with
  | integer | decimal | text | bool | column => simp [metricsThrough, isMetricUse, children]
  | taxon u | «attribute» u =>
    cases h : u.isMetric <;> simp [metricsThrough, isMetricUse, children, h]
  | call =>
    simp only [metricsThrough, isMetricUse, children, ← mem_metricsThroughEach]
    split <;> simp [*]
  | _ =>
    simp only [metricsThrough, isMetricUse, children]
    split <;> simp [*]

/-- Metrics that are reached through some nodes only stand in the node. -/
theorem mem_metricsThrough_of_imp {into' : Node → Bool} {n : Node}
    (h : ∀ m, into m = true → into' m = true) (hr : r ∈ n.metricsThrough into) :
    r ∈ n.metricsThrough into' := by
  induction n using children_induction with
  | h n ih =>
    rcases mem_metricsThrough.1 hr with own | ⟨through, c, hc, below⟩
    · exact mem_metricsThrough.2 (.inl own)
    · exact mem_metricsThrough.2 (.inr ⟨h n through, c, hc, ih c hc below⟩)

end

/-- Whether a node is a running total. -/
def isTotal : Node → Bool
  | .call .cumulative _ _ _ => true
  | _ => false

/-- The metrics in a node. -/
def metrics : Node → List Node := metricsThrough fun _ => true

/-- The metrics in a node that stand in no running total. -/
def openMetrics : Node → List Node := metricsThrough fun n => !n.isTotal

theorem mem_metrics {r n : Node} : r ∈ n.metrics ↔
    r = n ∧ n.isMetricUse = true ∨ ∃ c ∈ n.children, r ∈ c.metrics := by
  rw [metrics, mem_metricsThrough]
  simp

theorem mem_openMetrics {r n : Node} : r ∈ n.openMetrics ↔
    r = n ∧ n.isMetricUse = true ∨ n.isTotal = false ∧ ∃ c ∈ n.children, r ∈ c.openMetrics := by
  rw [openMetrics, mem_metricsThrough, Bool.not_eq_true']

theorem mem_metrics_of_mem_metricsThrough {into : Node → Bool} {r n : Node}
    (h : r ∈ n.metricsThrough into) : r ∈ n.metrics :=
  mem_metricsThrough_of_imp (fun _ _ => rfl) h

theorem metrics_toNode (c : Constant) (place : Location) : (c.toNode place).metrics = [] := by
  cases c <;> rfl

/-- A constant holds no metric. -/
theorem not_mem_metrics_of_constant? {n : Node} {c : Constant} (h : n.constant? = some c)
    (r : Node) : r ∉ n.metrics := by
  induction n generalizing c with
  | taxon | modelAttribute | isNull | call => cases h
  | integer | decimal | text | bool | column =>
    rw [mem_metrics]
    simp [isMetricUse, children]
  | paren n _ ih | root n _ ih | computed _ n _ ih =>
    rw [mem_metrics]
    simpa [isMetricUse, children] using ih h
  | transition _ n _ _ _ ih =>
    rw [mem_metrics]
    simpa [isMetricUse, children] using ih h
  | not n _ ih =>
    obtain ⟨d, hd, _⟩ := Option.map_eq_some_iff.1 h
    rw [mem_metrics]
    simpa [isMetricUse, children] using ih hd
  | binary op l r' _ hl hr =>
    obtain ⟨a, ha, h⟩ := Option.bind_eq_some_iff.1 h
    obtain ⟨b, hb, _⟩ := Option.bind_eq_some_iff.1 h
    rw [mem_metrics]
    simpa [isMetricUse, children] using ⟨hl ha, hr hb⟩

/-! ## Ratios within each other -/

def isDivision : Node → Bool
  | .binary .div _ _ _ => true
  | _ => false

/-- Whether at most so many ratios stand in each other in a node. -/
inductive DividesWithin : Nat → Node → Prop
  | ratio {h : Nat} {l r : Node} (place : Location) (left : DividesWithin h l)
      (right : DividesWithin h r) : DividesWithin (h + 1) (.binary .div l r place)
  | other {h : Nat} {n : Node} (other : n.isDivision = false)
      (each : ∀ c ∈ n.children, DividesWithin h c) : DividesWithin h n

theorem DividesWithin.mono {h h' : Nat} {n : Node} (hn : DividesWithin h n) (le : h ≤ h') :
    DividesWithin h' n := by
  induction hn generalizing h' with
  | ratio place _ _ ihl ihr =>
    obtain ⟨k, rfl⟩ : ∃ k, h' = k + 1 := Nat.exists_eq_succ_of_ne_zero (by omega)
    have le := Nat.le_of_succ_le_succ le
    exact .ratio place (ihl le) (ihr le)
  | other hn _ ih => exact .other hn fun c hc => ih c hc le

/-- What stands directly in a node has no more ratios within each other. -/
theorem DividesWithin.child {h : Nat} {n : Node} (hn : DividesWithin h n) :
    ∀ c ∈ n.children, DividesWithin h c := by
  cases hn with
  | ratio place left right =>
    exact List.forall_mem_cons.2 ⟨left.mono (Nat.le_succ _),
      List.forall_mem_singleton.2 (right.mono (Nat.le_succ _))⟩
  | other _ each => exact each

/-- Without any ratio, none stand in each other. -/
theorem dividesWithin_of_all {n : Node} (h : n.All fun m => m.isDivision = false) (k : Nat) :
    DividesWithin k n := by
  induction n using children_induction with
  | h n ih =>
    obtain ⟨own, below⟩ := all_iff.1 h
    exact .other own fun c hc => ih c hc (below c hc)

theorem all_isDivision_of_dividesWithin_zero {n : Node} (h : DividesWithin 0 n) :
    n.All fun m => m.isDivision = false := by
  generalize zero : 0 = k at h
  induction h with
  | ratio => cases zero
  | other own _ ih => exact all_iff.2 ⟨own, fun c hc => ih c hc zero⟩

/-! ## Nodes in scope -/

/-- The further arguments of a call whose value comes from its first: of a conversion, of a running
total, and of a merger in a request for one data source. -/
def options : Node → List Node
  | .call f args single _ =>
    if f.isConversion || f = .cumulative || f = .merge && single then args.drop 1 else []
  | _ => []

/-- Whether a node holds neither metrics nor ratios. -/
structure IsFlat (n : Node) : Prop where
  metrics : n.metrics = []
  divisions : n.All fun m => m.isDivision = false

/-- Whether a node is there, moves nothing and has flat options. -/
structure IsInScope (ctx : Context) (n : Node) : Prop where
  present : n.isMissing ctx = false
  unmoved : n.isTransition = false
  options : ∀ c ∈ n.options, c.IsFlat

instance : DecidablePred IsFlat := fun n =>
  decidable_of_iff (n.metrics = [] ∧ n.All fun m => m.isDivision = false)
    ⟨fun ⟨h, h'⟩ => ⟨h, h'⟩, fun ⟨h, h'⟩ => ⟨h, h'⟩⟩

instance : DecidablePred (IsInScope ctx) := fun n =>
  decidable_of_iff (n.isMissing ctx = false ∧ n.isTransition = false ∧ ∀ c ∈ n.options, c.IsFlat)
    ⟨fun ⟨h, h', h''⟩ => ⟨h, h', h''⟩, fun ⟨h, h', h''⟩ => ⟨h, h', h''⟩⟩

/-- Whether all parts of a node are in scope. -/
abbrev Whole (ctx : Context) (n : Node) : Prop := n.All (IsInScope ctx)

theorem Whole.present {n : Node} (h : n.Whole ctx) : n.isMissing ctx = false :=
  (h n (mem_parts_self n)).present

theorem whole_toNode (c : Constant) (place : Location) : (c.toNode place).Whole ctx := by
  cases c <;> exact all_of_children_eq_nil rfl ⟨rfl, rfl, List.forall_mem_nil _⟩

theorem whole_binary {op : Operator} {l r : Node} {place : Location} (hl : l.Whole ctx)
    (hr : r.Whole ctx) : (Node.binary op l r place).Whole ctx := by
  refine all_binary.2 ⟨⟨?_, rfl, List.forall_mem_nil _⟩, hl, hr⟩
  cases op <;> simp [isMissing, hl.present, hr.present]

theorem whole_call {f : Function} {args : List Node} {single : Bool} {place : Location}
    (present : (Node.call f args single place).isMissing ctx = false)
    (options : ∀ c ∈ (Node.call f args single place).options, c.IsFlat)
    (hargs : ∀ n ∈ args, n.Whole ctx) : (Node.call f args single place).Whole ctx :=
  all_iff.2 ⟨⟨present, rfl, options⟩, hargs⟩

theorem isTransition_of_rule {n : Node} (h : n.rule ctx = .kept) : n.isTransition = true := by
  cases n with
  | transition => rfl
  | binary => exact absurd h (rule_binary_ne_kept _ _ _ _)
  | call f args single place =>
    cases args with
    | nil => cases h
    | cons first rest =>
      rw [rule, callRule.eq_def] at h
      dsimp only at h
      split at h <;> first | cases h | (split_ifs at h)
  | _ => cases h

/-- A call that becomes something else takes its value from its first argument. -/
theorem mem_options_of_rule {f : Function} {first : Node} {rest : List Node} {single : Bool}
    {place : Location} (h : (Node.call f (first :: rest) single place).rule ctx ≠ .inside) :
    ∀ c ∈ rest, c ∈ (Node.call f (first :: rest) single place).options := by
  rw [rule, callRule.eq_def] at h
  intro c hc
  cases f with
  | coalesce =>
    dsimp only at h
    split_ifs at h with none
    · rw [List.isEmpty_iff.1 none] at hc
      cases hc
    · exact absurd rfl h
  | merge =>
    dsimp only at h
    split_ifs at h with single
    · simpa [options, single] using hc
    · exact absurd rfl h
  | toText | toDate | toBool | toNumber | cumulative => simpa [options, Function.isConversion] using hc
  | _ => exact absurd rfl h

/-! ## What becomes of a node -/

end Node

end SemanticLayer.Formula
