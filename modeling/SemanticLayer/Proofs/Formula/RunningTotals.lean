import SemanticLayer.Proofs.Formula.Termination

/-!
# Running totals of ratios

A running total of a formula that holds a ratio of varying values is split: each such ratio becomes
the ratio of the totals of its sides, and the total around the formula goes.

* `isSplitter_splitRatio`: splitting changes nothing but ratios, and leaves no metric of a ratio
  outside of its totals;
* `simplify?_eq_some`: the bound on how deep ratios are split is never met in scope;
* `mem_unsplitMetrics_iff`: the metrics that stand outside of all running totals once a formula is
  split (`Node.unsplitMetrics`);
* `mem_metrics_simplify`, `mem_openMetrics_simplify`: the metrics of a running total once it is
  simplified, and those of them that are left open;
* `keepsTotals_iff`: when all metrics of a running total still stand in one.
-/

namespace SemanticLayer.Formula.Node

variable {ctx : Context}

/-! ## Ratios that are split -/

theorem eq_of_splitRatio {depth : Nat} {step : Step} {time n m s : Node}
    (h : splitRatio ctx (depth + 1) step time n = some m) (hs : step n = some s)
    (other : s.isVaryingRatio ctx = false) : m = s :=
  Option.some.inj (h.symm.trans (splitRatio_of_other hs other))

theorem Succeeds.totals {l r a b time : Node} {place : Location} (whole : time.Whole ctx)
    (flat : time.IsFlat) (ha : Succeeds ctx l a) (hb : Succeeds ctx r b) :
    Succeeds ctx (.binary .div l r place)
      (.binary .div (.call .cumulative [a, time] false a.place)
        (.call .cumulative [b, time] false b.place) place) := by
  have total {side s : Node} (h : Succeeds ctx side s) :
      Succeeds ctx side (.call .cumulative [s, time] false s.place) :=
    h.call rfl (List.forall_mem_singleton.2 whole) (List.forall_mem_singleton.2 flat)
  refine ⟨whole_binary (total ha).whole (total hb).whole, fun r => ?_, fun within => ?_⟩
  · rw [mem_metrics, mem_metrics]
    simp only [children, List.exists_mem_cons_iff, (total ha).metrics, (total hb).metrics]
    simp [isMetricUse]
  · cases within with
    | ratio _ left right => exact .ratio place ((total ha).divides left) ((total hb).divides right)
    | other own => cases own

/-- Splitting ratios after another step changes nothing but ratios, and leaves none of their metrics
outside of totals.  The sides of a ratio are simplified once more, with one level less. -/
theorem isSplitter_splitRatio (depth : Nat) : IsSplitter ctx (splitRatio ctx depth) := by
  induction depth with
  | zero => exact fun _ _ _ _ _ => ⟨⟨nofun, nofun⟩, nofun⟩
  | succ depth ih =>
    intro step time hstep whole flat
    have side {n s : Node} (hn : n.Whole ctx)
        (h : simplifyWith ctx (splitRatio ctx depth) (splitRatio ctx depth step time) n = some s) :
        Succeeds ctx n s :=
      (Becomes.simplifyWith ih n (ih step time hstep whole flat).toChangesRatios h hn).toSucceeds
    refine ⟨⟨fun h other => ?_, fun h ratio hn => ?_⟩, fun h ratio hn => ?_⟩
    · obtain ⟨s, hs⟩ := stepped_of_splitRatio h
      have same := hstep.other hs other
      rw [← same] at other
      exact (eq_of_splitRatio h hs other).trans same
    · obtain ⟨s, hs⟩ := stepped_of_splitRatio h
      obtain ⟨varying, after⟩ := hstep.ratio hs ratio hn
      obtain ⟨l, r, place, a, b, rfl, ha, hb, rfl⟩ := totals_of_splitRatio h hs varying
      obtain ⟨_, left, right⟩ := all_binary.1 after.whole
      exact ⟨totals_isVaryingRatio a b time place,
        after.trans (.totals whole flat (side left ha) (side right hb))⟩
    · obtain ⟨s, hs⟩ := stepped_of_splitRatio h
      obtain ⟨varying, _⟩ := hstep.ratio hs ratio hn
      obtain ⟨l, r, place, a, b, rfl, ha, hb, rfl⟩ := totals_of_splitRatio h hs varying
      rfl

/-! ## Simplification ends -/

theorem ratioDepth_of_all {n : Node} (h : n.All fun m => m.isDivision = false) :
    n.ratioDepth = 0 := by
  induction n using children_induction with
  | h n ih =>
    obtain ⟨other, below⟩ := all_iff.1 h
    have own : n.ownRatio = 0 := by
      cases n with
      | binary op =>
        cases op with
        | div => cases other
        | _ => rfl
      | _ => rfl
    refine Nat.le_zero.1 (ratioDepth_le_iff.2 fun c hc => Nat.le_of_eq ?_)
    rw [own, ih c hc (below c hc)]

/-- In scope, the times of running totals hold no ratios. -/
theorem Whole.timesApart {n : Node} (whole : n.Whole ctx) : n.TimesApart := by
  intro m hm
  cases m with
  | call f args =>
    cases f with
    | cumulative =>
      cases args with
      | nil => rfl
      | cons first rest =>
        cases rest with
        | nil => rfl
        | cons time rest =>
          have flat := (whole _ hm).options time (List.mem_cons_self ..)
          exact Bool.or_eq_true_iff.2 (.inr (decide_eq_true (ratioDepth_of_all flat.divisions)))
    | _ => rfl
  | _ => rfl

/-- The bound on how deep ratios are split is never met in scope. -/
theorem simplify?_eq_some {n : Node} (whole : n.Whole ctx) :
    n.simplify? ctx ((n.size + 2) * (n.size + 2)) = some (n.simplify ctx) :=
  simplify?_eq_of_apart whole.timesApart (ratioDepth_lt_bound n)

/-! ## Metrics that are left open -/

/-- Whether a node is a ratio that is split once it is simplified. -/
def splits (ctx : Context) : Node → Bool
  | .binary .div l r _ => !l.isFixed ctx && !r.isFixed ctx
  | _ => false

/-- Whether metrics in a node are outside of running totals if the node is, once it is split: it is
no ratio that is split and no total that stays. -/
def staysOpen (ctx : Context) (n : Node) : Bool :=
  !n.splits ctx && (!n.isTotal || n.rule ctx = .split)

/-- The metrics in a node that stand neither in a ratio that is split nor in a total that stays. -/
def unsplitMetrics (ctx : Context) : Node → List Node := metricsThrough (staysOpen ctx)

theorem mem_unsplitMetrics {r n : Node} : r ∈ n.unsplitMetrics ctx ↔
    r = n ∧ n.isMetricUse = true ∨
      n.staysOpen ctx = true ∧ ∃ c ∈ n.children, r ∈ c.unsplitMetrics ctx := mem_metricsThrough

/-- A call that becomes something else leaves open what its first argument does. -/
theorem mem_unsplitMetrics_call {r : Node} {f : Function} {first : Node} {rest : List Node}
    {single : Bool} {place : Location} (h : IsInScope ctx (.call f (first :: rest) single place))
    (other : (Node.call f (first :: rest) single place).rule ctx ≠ .inside) :
    r ∈ (Node.call f (first :: rest) single place).unsplitMetrics ctx ↔
      r ∈ first.unsplitMetrics ctx := by
  have opened : (Node.call f (first :: rest) single place).staysOpen ctx = true := by
    have whole : (Node.call f (first :: rest) single place).splits ctx = false := rfl
    rw [staysOpen, whole, Bool.not_false, Bool.true_and]
    cases f with
    | cumulative =>
      rw [rule, callRule] at other ⊢
      split_ifs at other ⊢
      · rfl
      · exact absurd rfl other
    | _ => rfl
  rw [mem_unsplitMetrics, opened, children, List.exists_mem_cons_iff]
  simp only [isMetricUse, Bool.false_eq_true, and_false, false_or, true_and]
  refine or_iff_left ?_
  rintro ⟨c, hc, hr⟩
  have none := mem_metrics_of_mem_metricsThrough hr
  rw [(h.options c (mem_options_of_rule other c hc)).metrics] at none
  cases none

/-- A conversion is no ratio, and leaves open what its value does. -/
theorem mem_openMetrics_call {r : Node} {f : Function} {n : Node} {ms : List Node} {single : Bool}
    {place : Location} (other : f ≠ .cumulative) (flat : ∀ c ∈ ms, c.IsFlat) :
    (Node.call f (n :: ms) single place).isVaryingRatio ctx = false ∧
        r ∈ (Node.call f (n :: ms) single place).openMetrics ↔
      r ∈ n.openMetrics := by
  rw [openMetrics, mem_metricsThrough_call (fun n h => by rw [h]; rfl) other,
    List.exists_mem_cons_iff]
  refine (and_iff_right rfl).trans (or_iff_left ?_)
  rintro ⟨c, hc, hr⟩
  have none := mem_metrics_of_mem_metricsThrough hr
  rw [(flat c hc).metrics] at none
  cases none

/-- Around what becomes of its children, a node is a ratio of varying values exactly if it is
split. -/
theorem isVaryingRatio_withChildren {n : Node} {ms : List Node}
    (each : List.Forall₂ (Becomes ctx) n.children ms) :
    (n.withChildren ms).isVaryingRatio ctx = n.splits ctx := by
  cases n with
  | binary op l r place =>
    obtain ⟨l', _, left, others, rfl⟩ := List.forall₂_cons_left_iff.1 each
    obtain ⟨r', _, right, rest, rfl⟩ := List.forall₂_cons_left_iff.1 others
    cases rest
    cases op with
    | div => rw [withChildren, isVaryingRatio, left.isConstant, right.isConstant, splits]
    | _ => rfl
  | integer | decimal | text | bool | column | taxon | «attribute» | call => rfl
  | paren | not | isNull | transition | root | computed =>
    obtain ⟨m, rfl⟩ := List.length_eq_one_iff.1 each.length_eq.symm
    rfl

/-- A metric that a simplified node leaves open is left open by the step that splits it. -/
theorem SplitsRatios.mem_openMetrics {step : Step} (hstep : SplitsRatios ctx step) {r s m : Node}
    {q : Prop} (h : q ↔ s.isVaryingRatio ctx = false ∧ r ∈ s.openMetrics) (hm : step s = some m)
    (whole : s.Whole ctx) : r ∈ m.openMetrics ↔ q := by
  rw [h]
  cases ratio : s.isVaryingRatio ctx with
  | true =>
    rw [hstep.closed hm ratio whole]
    simp
  | false =>
    rw [hstep.other hm ratio]
    simp

/-- The metrics that a node leaves open once it is simplified with a step that splits ratios. -/
theorem mem_unsplitMetrics_iff {split : Splitter} (hsplit : IsSplitter ctx split) (r n : Node) :
    ∀ ⦃step m⦄, SplitsRatios ctx step → simplifyWith ctx split step n = some m → n.Whole ctx →
      (r ∈ n.unsplitMetrics ctx ↔ m.isVaryingRatio ctx = false ∧ r ∈ m.openMetrics) := by
  have through : ∀ n : Node, n.isTotal = false → (!n.isTotal) = true := fun n h => by rw [h]; rfl
  induction n using children_induction with
  | h n ih =>
    intro step m hstep h whole
    obtain ⟨own, below⟩ := all_iff.1 whole
    have within (c : Node) (hc : c ∈ n.children) (s : Node)
        (h : simplifyWith ctx split step c = some s) : Becomes ctx c s :=
      Becomes.simplifyWith hsplit c hstep.toChangesRatios h (below c hc)
    have stepped (c : Node) (hc : c ∈ n.children) (s : Node)
        (h : simplifyWith ctx split step c = some s) (m : Node) (hm : step s = some m) :
        r ∈ m.openMetrics ↔ r ∈ c.unsplitMetrics ctx :=
      hstep.mem_openMetrics (ih c hc hstep h (below c hc)) hm (within c hc s h).whole
    -- A condition that a conversion becomes leaves open what the value does that it tests.
    have testLeaves {c s test : Node} {yes no : Constant} {constants place : Location}
        (hc : c ∈ n.children) (h : simplifyWith ctx split step c = some s)
        (tests : Tests step c s test) :
        r ∈ (Node.call .iff [test, yes.toNode constants, no.toNode constants] false
          place).openMetrics ↔ r ∈ c.unsplitMetrics ctx := by
      rw [openMetrics, mem_metricsThrough_choice through]
      refine tests.mem_metricsThrough through (fun d hd hr => ?_) (stepped c hc s h)
      exact not_mem_metrics_of_constant? hd r (mem_metrics_of_mem_metricsThrough hr)
    have rewritten := rewritten h
    generalize ruled : n.rule ctx = k at rewritten
    clear h
    cases rewritten with
    | kept =>
      have moved := own.unmoved
      rw [isTransition_of_rule ruled] at moved
      cases moved
    | @inside _ _ ms each around =>
      have becomes := Becomes.of_each hstep.toChangesRatios each within
      have opened := forall₂_of_each each stepped
      rw [← around, isVaryingRatio_withChildren becomes]
      cases splits : n.splits ctx with
      | true =>
        have closed : n.isMetricUse = false ∧ n.staysOpen ctx = false := by
          rw [staysOpen, splits]
          cases n with
          | taxon | «attribute» => cases splits
          | _ => exact ⟨rfl, rfl⟩
        rw [mem_unsplitMetrics, closed.1, closed.2]
        simp
      | false =>
        obtain ⟨_, _, _, total⟩ := sameKind_withChildren becomes.length_eq.symm
        have same : (!(n.withChildren ms).isTotal) = n.staysOpen ctx := by
          rw [total, staysOpen, splits, ruled]
          simp
        rw [and_iff_right rfl]
        exact (mem_metricsThrough_withChildren opened (fun _ _ h => h) same).symm
    | left remains | right remains =>
      obtain ⟨_, left, right⟩ := all_binary.1 whole
      rw [remaining_of_present (Whole.present left) (Whole.present right)] at remains
      cases remains
    | @folded op l r c place value =>
      rw [openMetrics, metricsThrough_toNode]
      refine iff_of_false (fun hr => ?_) fun hr => List.not_mem_nil hr.2
      exact not_mem_metrics_of_constant? value _ (mem_metrics_of_mem_metricsThrough hr)
    | @first f first _ rest single place _ h =>
      have other : (Node.call f (first :: rest) single place).rule ctx ≠ .inside := by
        rw [ruled]
        decide
      rw [mem_unsplitMetrics_call own other]
      exact ih first (List.mem_cons_self ..) hstep h (below first (List.mem_cons_self ..))
    | @truth first simplified test choice rest single place h tests chooses =>
      have other : (Node.call .toBool (first :: rest) single place).rule ctx ≠ .inside := by
        rw [ruled]
        decide
      have tests := tests_of_testOfFalse hstep.toChangesRatios tests
      rw [eq_choice hstep.toChangesRatios tests.isVaryingRatio_eq chooses,
        mem_unsplitMetrics_call own other,
        mem_openMetrics_call (by decide) (List.forall_mem_nil _)]
      exact (testLeaves (List.mem_cons_self ..) h tests).symm
    | @truthNumber first simplified test choice rest ms single place h tests chooses precision =>
      have other : (Node.call .toNumber (first :: rest) single place).rule ctx ≠ .inside := by
        rw [ruled]
        decide
      have tests := tests_of_simplifiedTest hstep.toChangesRatios tests
      have further := Becomes.of_each hstep.toChangesRatios precision fun c hc =>
        within c (List.mem_cons_of_mem _ (List.mem_of_mem_take hc))
      have flat := forall_mem_of_forall₂ further (fun _ _ becomes => becomes.isFlat)
        fun c hc => own.options c (List.mem_of_mem_take hc)
      rw [eq_choice hstep.toChangesRatios tests.isVaryingRatio_eq chooses,
        mem_unsplitMetrics_call own other,
        mem_openMetrics_call (by decide) flat]
      exact (testLeaves (List.mem_cons_self ..) h tests).symm
    | @number first rest ms single place each =>
      have other : (Node.call .toNumber (first :: rest) single place).rule ctx ≠ .inside := by
        rw [ruled]
        decide
      have becomes := Becomes.of_each hstep.toChangesRatios each fun c hc =>
        within c (List.mem_of_mem_take (i := 2) hc)
      have opened := forall₂_of_each each fun c hc =>
        stepped c (List.mem_of_mem_take (i := 2) hc)
      cases becomes with
      | cons becomes further =>
        cases opened with
        | cons opened _ =>
          have flat := forall_mem_of_forall₂ further (fun _ _ becomes => becomes.isFlat)
            fun c hc => own.options c (List.mem_of_mem_take hc)
          rw [mem_unsplitMetrics_call own other,
            mem_openMetrics_call (by decide) flat]
          exact opened.symm
    | @split first time time' simplified _ rest single place atTime h splits =>
      have other : (Node.call .cumulative (first :: time :: rest) single place).rule ctx ≠
          .inside := by
        rw [ruled]
        decide
      have timeIn := List.mem_cons_of_mem first (List.mem_cons_self (a := time) (l := rest))
      have firstIn := List.mem_cons_self (a := first) (l := time :: rest)
      have becomesTime := within time timeIn time' atTime
      have splitting := hsplit step time' hstep.toChangesRatios becomesTime.whole
        (becomesTime.isFlat (own.options time (List.mem_cons_self ..)))
      have becomes :=
        Becomes.simplifyWith hsplit first splitting.toChangesRatios h (below first firstIn)
      have open₁ := ih first firstIn splitting h (below first firstIn)
      rw [mem_unsplitMetrics_call own other,
        splitting.mem_openMetrics open₁ splits becomes.whole,
        splitting.isVaryingRatio_eq splits becomes.whole, open₁]
      exact ⟨fun hr => ⟨hr.1, hr⟩, And.right⟩

/-! ## Metrics in running totals -/

/-- Whether a metric stands in what some running total in a node adds up. -/
def IsTotalled (r n : Node) : Prop :=
  ∃ metric times single place,
    Node.call .cumulative (metric :: times) single place ∈ n.parts ∧ r ∈ metric.metrics

/-- Whether all metrics of one node stand in running totals of another, and nowhere else. -/
def KeepsTotals (metric n : Node) : Prop :=
  ∀ r ∈ metric.metrics, IsTotalled r n ∧ r ∉ n.openMetrics

/-- A metric that is not left open is added up: times hold no metrics. -/
theorem isTotalled_of_mem_metrics {r n : Node} (whole : n.Whole ctx) (hr : r ∈ n.metrics)
    (closed : r ∉ n.openMetrics) : IsTotalled r n := by
  induction n using children_induction with
  | h n ih =>
    obtain ⟨own, below⟩ := all_iff.1 whole
    rcases mem_metrics.1 hr with leaf | ⟨c, hc, hrc⟩
    · exact absurd (mem_openMetrics.2 (.inl leaf)) closed
    cases total : n.isTotal with
    | false =>
      have closed : r ∉ c.openMetrics := fun h =>
        closed (mem_openMetrics.2 (.inr ⟨total, c, hc, h⟩))
      obtain ⟨metric, times, single, place, hpart, hmetric⟩ := ih c hc (below c hc) hrc closed
      refine ⟨metric, times, single, place, ?_, hmetric⟩
      rw [parts_eq]
      exact List.mem_cons_of_mem _ (List.mem_flatMap.2 ⟨c, hc, hpart⟩)
    | true =>
      cases n with
      | call f args single place =>
        cases f with
        | cumulative =>
          cases args with
          | nil => cases hc
          | cons metric times =>
            rcases List.mem_cons.1 hc with rfl | hc
            · exact ⟨c, times, single, place, mem_parts_self _, hrc⟩
            · rw [(own.options c hc).metrics] at hrc
              cases hrc
        | _ => cases total
      | _ => cases total

section
variable {metric time : Node} {rest : List Node} {single : Bool} {place : Location}
  (whole : (Node.call .cumulative (metric :: time :: rest) single place).Whole ctx)
include whole

/-- A running total holds the metrics it adds up, also once it is simplified. -/
theorem mem_metrics_simplify {r : Node} :
    r ∈ ((Node.call .cumulative (metric :: time :: rest) single place).simplify ctx).metrics ↔
      r ∈ metric.metrics := by
  obtain ⟨own, below⟩ := all_iff.1 whole
  have becomes := Becomes.simplifyWith (isSplitter_splitRatio _) _ changesRatios_some
    (simplify?_eq_some whole) whole
  rw [becomes.metrics]
  exact ((Succeeds.refl (below metric (List.mem_cons_self ..))).of_first own.options).metrics r |>.symm

/-- The metrics that a running total leaves open once it is simplified: those outside of its ratios,
if it has any. -/
theorem mem_openMetrics_simplify {r : Node} :
    r ∈ ((Node.call .cumulative (metric :: time :: rest) single place).simplify ctx).openMetrics ↔
      metric.hasVaryingRatio ctx = true ∧ r ∈ metric.unsplitMetrics ctx := by
  obtain ⟨depth, simplified⟩ : ∃ depth, simplifyWith ctx (splitRatio ctx depth) some
      (.call .cumulative (metric :: time :: rest) single place) =
        some ((Node.call .cumulative (metric :: time :: rest) single place).simplify ctx) :=
    ⟨_, simplify?_eq_some whole⟩
  obtain ⟨own, below⟩ := all_iff.1 whole
  generalize (Node.call .cumulative (metric :: time :: rest) single place).simplify ctx = n
    at simplified ⊢
  have rewritten := rewritten simplified
  rw [rule, callRule, List.isEmpty_cons, Bool.not_false, Bool.true_and] at rewritten
  cases ratio : metric.hasVaryingRatio ctx with
  | false =>
    rw [ratio, if_neg Bool.false_ne_true] at rewritten
    cases rewritten with
    | inside _ around =>
      rw [← around]
      exact iff_of_false List.not_mem_nil fun h => Bool.false_ne_true h.1
  | true =>
    rw [ratio, if_pos rfl] at rewritten
    cases rewritten with
    | @split _ _ time' simplified _ _ _ _ atTime h splits =>
      have metricIn := List.mem_cons_self (a := metric) (l := time :: rest)
      have timeIn := List.mem_cons_of_mem metric (List.mem_cons_self (a := time) (l := rest))
      have splitter : IsSplitter ctx (splitRatio ctx depth) := isSplitter_splitRatio depth
      have becomesTime :=
        Becomes.simplifyWith splitter time changesRatios_some atTime (below time timeIn)
      have splitting := splitter some time' changesRatios_some becomesTime.whole
        (becomesTime.isFlat (own.options time (List.mem_cons_self ..)))
      have becomes :=
        Becomes.simplifyWith splitter metric splitting.toChangesRatios h (below metric metricIn)
      have opened := mem_unsplitMetrics_iff splitter r metric splitting h (below metric metricIn)
      rw [splitting.mem_openMetrics opened splits becomes.whole]
      exact (and_iff_right rfl).symm

/-- All metrics of a running total still stand in one once it is simplified, exactly if it holds no
ratio of varying values or if each metric stands in such a ratio or in a running total of its
own.  The metrics beside the ratios are not added up any more. -/
theorem keepsTotals_iff :
    KeepsTotals metric
        ((Node.call .cumulative (metric :: time :: rest) single place).simplify ctx) ↔
      metric.hasVaryingRatio ctx = false ∨ metric.unsplitMetrics ctx = [] := by
  constructor
  · intro keeps
    cases ratio : metric.hasVaryingRatio ctx with
    | false => exact .inl rfl
    | true =>
      refine .inr (List.eq_nil_iff_forall_not_mem.2 fun r hr => ?_)
      have held : r ∈ metric.metrics := mem_metrics_of_mem_metricsThrough hr
      exact (keeps r held).2 ((mem_openMetrics_simplify whole).2 ⟨ratio, hr⟩)
  · intro covered r hr
    have closed : r ∉ ((Node.call .cumulative (metric :: time :: rest) single place).simplify
        ctx).openMetrics := by
      rw [mem_openMetrics_simplify whole]
      rintro ⟨ratio, hr⟩
      rcases covered with none | none
      · rw [none] at ratio
        cases ratio
      · rw [none] at hr
        cases hr
    have after := Becomes.simplifyWith (isSplitter_splitRatio _) _ changesRatios_some
      (simplify?_eq_some whole) whole
    exact ⟨isTotalled_of_mem_metrics after.whole ((mem_metrics_simplify whole).2 hr) closed, closed⟩

end

/-! ### Ratios of spend to clicks -/

/-- Three metrics, and the days they are counted on. -/
def sales : Context :=
  let raw (slug : String) (type : TaxonType) : Taxon :=
    ⟨slug, slug, none, type, .raw .sum, if type = .metric then .numeric else .datetime, "shop",
      none, none, none⟩
  Context.ofTaxons (Taxon.mapOf
    [raw "spend" .metric, raw "clicks" .metric, raw "revenue" .metric, raw "day" .dimension])

/-- A formula that is one running total, with what is found of it. -/
theorem exists_total (formula : String) (found : Node → Node → Node → Bool)
    (h : (rootOfFormula sales none formula).toOption.any (fun n =>
      match n with
      | .root (.call .cumulative [metric, time] single place) _ =>
        found n metric (.call .cumulative [metric, time] single place)
      | _ => false) = true) :
    ∃ metric time single place place',
      let total := Node.call .cumulative [metric, time] single place
      rootOfFormula sales none formula = .ok (.root total place') ∧
        found (.root total place') metric total = true := by
  obtain ⟨n, hn, h⟩ := Result.ok_of_any h
  split at h
  · rename_i metric time single place place'
    exact ⟨metric, time, single, place, place', hn, h⟩
  · cases h

theorem keepsTotals_iff_ratio : ∃ metric time single place place',
    let total := Node.call .cumulative [metric, time] single place
    rootOfFormula sales none "cumulative(spend / clicks, day)" = .ok (.root total place') ∧
      metric.hasVaryingRatio sales = true ∧ KeepsTotals metric (total.simplify sales) := by
  obtain ⟨metric, time, single, place, place', hn, found⟩ :=
    exists_total "cumulative(spend / clicks, day)"
      (fun _ metric total => total.Whole sales ∧ metric.hasVaryingRatio sales = true ∧
        metric.unsplitMetrics sales = []) (by decide +kernel)
  obtain ⟨whole, ratio, covered⟩ := of_decide_eq_true found
  exact ⟨metric, time, single, place, place', hn, ratio, (keepsTotals_iff whole).2 (.inr covered)⟩

/-- A metric beside a ratio is not added up any more: the total of spend / clicks + revenue becomes a
ratio of totals with the plain revenue. -/
theorem not_keepsTotals_sum : ∃ metric time single place place',
    let total := Node.call .cumulative [metric, time] single place
    rootOfFormula sales none "cumulative(spend / clicks + revenue, day)" =
        .ok (.root total place') ∧
      (Node.root total place').faults sales = [] ∧
      ¬KeepsTotals metric (total.simplify sales) := by
  obtain ⟨metric, time, single, place, place', hn, found⟩ :=
    exists_total "cumulative(spend / clicks + revenue, day)"
      (fun n metric total => (n.faults sales).isEmpty ∧ total.Whole sales ∧
        metric.hasVaryingRatio sales = true ∧ metric.unsplitMetrics sales ≠ []) (by decide +kernel)
  obtain ⟨valid, whole, ratio, leaves⟩ := of_decide_eq_true found
  obtain ⟨r, hr⟩ := List.exists_mem_of_ne_nil _ leaves
  refine ⟨metric, time, single, place, place', hn, List.isEmpty_iff.1 valid, fun keeps => ?_⟩
  exact (keeps r (mem_metrics_of_mem_metricsThrough hr)).2
    ((mem_openMetrics_simplify whole).2 ⟨ratio, hr⟩)

end SemanticLayer.Formula.Node
