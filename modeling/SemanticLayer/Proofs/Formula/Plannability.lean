import SemanticLayer.Proofs.Formula.Simplified
import SemanticLayer.Proofs.Formula.Stripping
import SemanticLayer.Proofs.Formula.Validity

/-!
# Which valid formulas can be planned

A plan moves values into later phases.  Validation does not hold every move against the phase that
the value has by then, so a formula without faults may still fail.

* `isPlannable`: the moves of a plan, operator by operator, all take their values;
* `evaluable_plan`: a planned node can be evaluated exactly if it is plannable;
* `renderTaxon_ok_iff_isPlannable`: a formula without faults has an outcome exactly if, simplified,
  it is plannable, and fails by a defect otherwise.
-/

namespace SemanticLayer.Formula

namespace Node

variable {ctx : Context}

/-! ## Moves -/

/-- Whether a value can be moved into the aggregation.  A value of one data source becomes a
dimension first. -/
def canAggregate (ctx : Context) (n : Node) : Bool :=
  (if n.phase ctx = .dimensionDataSource then Target.dimension else .aggregation).takes ctx n

def numericOperandFits (ctx : Context) (post : Bool) (n planned : Node) : Bool :=
  !(post && n.phase ctx ≠ .metricPost) || Target.postAggregation.takes ctx planned

/-- A dimension under a metric has to be aggregated, even if its own operands are already. -/
def logicalOperandFits (ctx : Context) (parent : Parent) (n planned : Node) : Bool :=
  if parent.phase?.any Phase.isMetric && (n.phase ctx).isDimension then planned.canAggregate ctx
  else
    !(parent.phase? = some .metricPost && n.phase ctx = .metricPre) ||
      Target.postAggregation.takes ctx planned

def branchFits (ctx : Context) (phase : Phase) (planned : Node) : Bool :=
  match phase with
  | .dimension => Target.dimension.takes ctx planned
  | .metricPre => planned.canAggregate ctx
  | .metricPost => Target.postAggregation.takes ctx planned
  | _ => true

/-- Whether the moves over the arguments of a call take them as they are planned. -/
def argumentsFit (ctx : Context) (parent : Parent) (f : Function) (phase : Phase)
    (planned : Node → Node) (args : List Node) : Bool :=
  match f, args with
  | .coalesce, _ =>
    args.all fun n => n.phase ctx ≠ .metricPre || Target.postAggregation.takes ctx (planned n)
  | .merge, _ => args.all fun n => Target.dimension.takes ctx (planned n)
  | .contains, n :: _ =>
    match parent with
    | .node q => !q.isMetric || (planned n).canAggregate ctx
    | _ => true
  | .dateDiff, _ :: ns =>
    phase ≠ .dimension || ns.all fun n => Target.dimension.takes ctx (planned n)
  | .override, n :: _ => Target.dimension.takes ctx (planned n)
  | .cumulative, n :: ns =>
    Target.postAggregation.takes ctx (planned n) && ns.all fun n => (planned n).canAggregate ctx
  | .overall, n :: ns =>
    Target.postAggregation.takes ctx (planned n) && ns.all fun n => (planned n).canAggregate ctx
  | .iff, _ => args.all fun n => branchFits ctx phase (planned n)
  | .ifs, _ => args.all fun n => branchFits ctx phase (planned n)
  | _, _ => true

/-- A value of one data source ends as a dimension, so it needs to come from one. -/
def rootFits (ctx : Context) (planned : Node) : Bool :=
  planned.phase ctx ≠ .dimensionDataSource || Target.dimension.takes ctx planned

mutual

/-- Whether all moves that a plan makes in a node under its parent take their values. -/
def isPlannable (ctx : Context) (parent : Parent) : Node → Bool
  | .integer .. => true
  | .decimal .. => true
  | .text .. => true
  | .bool .. => true
  | .column .. => true
  | .taxon .. => true
  | .attribute .. => true
  | .paren n _ => n.isPlannable ctx (.node (n.phase ctx))
  | .computed _ n _ => n.isMissing ctx || n.isPlannable ctx (.node (n.phase ctx))
  | .binary op l r p =>
    let here := Parent.node ((Node.binary op l r p).phase ctx)
    let left := l.plan ctx here
    let right := r.plan ctx here
    l.isPlannable ctx here && r.isPlannable ctx here &&
      if op.isNumeric then
        let post := isPost ctx op l r
        numericOperandFits ctx post l left && numericOperandFits ctx post r right
      else logicalOperandFits ctx parent l left && logicalOperandFits ctx parent r right
  | .not n _ => n.isPlannable ctx (.node (n.phase ctx))
  | .isNull n _ _ => n.isPlannable ctx (.node (n.phase ctx))
  | .call f args single p =>
    let phase := (Node.call f args single p).phase ctx
    -- the second and third argument of an override are constants that need no plan
    arePlannable ctx (.node phase) (f = .override) args &&
      argumentsFit ctx parent f phase (plan ctx (.node phase)) args
  | .transition .. => true
  | .root n _ =>
    n.isMissing ctx || n.isPlannable ctx .root && rootFits ctx (n.plan ctx .root)

/-- Whether arguments are plannable, the first or all of them. -/
def arePlannable (ctx : Context) (parent : Parent) (firstOnly : Bool) : List Node → Bool
  | [] => true
  | n :: ns => n.isPlannable ctx parent && (firstOnly || arePlannable ctx parent firstOnly ns)

end

theorem arePlannable_all (parent : Parent) (ns : List Node) :
    arePlannable ctx parent false ns = ns.all (isPlannable ctx parent) := by
  induction ns with
  | nil => rw [arePlannable, List.all_nil]
  | cons n ns ih => rw [arePlannable, ih, List.all_cons, Bool.false_or]

@[simp] theorem evaluable_toDimension (n : Node) :
    n.toDimension.evaluable ctx = (n.evaluable ctx && Target.dimension.takes ctx n) := by
  rw [toDimension, evaluable]

@[simp] theorem evaluable_toAggregation (n : Node) (a? : Option Aggregation) (l? : Option String) :
    (n.toAggregation a? l?).evaluable ctx =
      (n.evaluable ctx && Target.aggregation.takes ctx n) := by
  rw [toAggregation, evaluable]

@[simp] theorem evaluable_toPostAggregation (n : Node) (a? : Option Aggregation)
    (l? : Option String) :
    (n.toPostAggregation a? l?).evaluable ctx =
      (n.evaluable ctx && Target.postAggregation.takes ctx n) := by
  rw [toPostAggregation, evaluable]

/-- A dimension can be aggregated. -/
@[simp] theorem aggregation_takes_toDimension (n : Node) :
    Target.aggregation.takes ctx n.toDimension = true := by
  rw [Target.takes, toDimension, phase]
  rfl

/-- A value before aggregation can be moved past it. -/
@[simp] theorem postAggregation_takes_toAggregation (n : Node) (a? : Option Aggregation)
    (l? : Option String) : Target.postAggregation.takes ctx (n.toAggregation a? l?) = true := by
  rw [Target.takes, toAggregation, phase]
  rfl

@[simp] theorem evaluable_aggregated (n : Node) (a? : Option Aggregation) (l? : Option String) :
    (n.aggregated ctx a? l?).evaluable ctx = (n.evaluable ctx && n.canAggregate ctx) := by
  unfold aggregated canAggregate
  split <;> simp

@[simp] theorem postAggregation_takes_aggregated (n : Node) (a? : Option Aggregation)
    (l? : Option String) : Target.postAggregation.takes ctx (n.aggregated ctx a? l?) = true := by
  unfold aggregated
  split <;> simp

theorem evaluable_planNumericOperand (post : Bool) (n planned : Node) :
    (planNumericOperand ctx post n planned).evaluable ctx =
      (planned.evaluable ctx && numericOperandFits ctx post n planned) := by
  unfold planNumericOperand numericOperandFits
  cases moved : post && n.phase ctx ≠ .metricPost <;> simp

theorem evaluable_planLogicalOperand (parent : Parent) (n planned : Node) :
    (planLogicalOperand ctx parent n planned).evaluable ctx =
      (planned.evaluable ctx && logicalOperandFits ctx parent n planned) := by
  unfold planLogicalOperand logicalOperandFits
  dsimp only
  cases moved : parent.phase?.any Phase.isMetric && (n.phase ctx).isDimension with
  | true =>
    simp only [↓reduceIte]
    split <;> simp
  | false =>
    simp only [Bool.false_eq_true, ↓reduceIte]
    cases past : parent.phase? = some .metricPost && n.phase ctx = .metricPre <;> simp

theorem evaluable_planBranch (phase : Phase) (n planned : Node) :
    (planBranch ctx phase n planned).evaluable ctx =
      (planned.evaluable ctx && branchFits ctx phase planned) := by
  unfold planBranch branchFits
  split <;> simp

theorem aggregation_takes {n : Node} (h : n.phase ctx = .dimension ∨ n.phase ctx = .any) :
    Target.aggregation.takes ctx n = true := by
  unfold Target.takes
  rcases h with h | h <;> rw [h] <;> rfl

theorem postAggregation_takes {n : Node} (h : n.phase ctx = .metricPre) :
    Target.postAggregation.takes ctx n = true := by
  unfold Target.takes
  rw [h]
  rfl

theorem evaluable_planRoot (planned : Node) :
    (planRoot ctx planned).evaluable ctx = (planned.evaluable ctx && rootFits ctx planned) := by
  unfold planRoot rootFits
  dsimp only
  split
  · by_cases h : planned.phase ctx = .dimensionDataSource <;> simp [h]
  · cases h : planned.phase ctx with
    | any => simp [aggregation_takes (.inr h)]
    | dimensionDataSource => simp
    | dimension => simp [aggregation_takes (.inl h)]
    | metricPre => simp [postAggregation_takes h]
    | metricPost => simp
    | blendingProjection => simp

/-! ## Calls -/

theorem all_map_and {α : Type} {g : α → Node} {p fits : α → Bool} (as : List α)
    (hg : ∀ a, (g a).evaluable ctx = (p a && fits a)) :
    (as.map g).all (evaluable ctx) = (as.all p && as.all fits) := by
  induction as with
  | nil => rfl
  | cons a as ih =>
    rw [List.map_cons, List.all_cons, hg, ih, List.all_cons, List.all_cons]
    ac_rfl

theorem all_map (fits : Node → Bool) (planned : Node → Node) (ns : List Node) :
    (ns.map planned).all fits = ns.all fun n => fits (planned n) := by
  rw [List.all_map]
  rfl

/-- Moving each argument, planned, from what it was. -/
theorem all_zipWith {g : Node → Node → Node} {planned : Node → Node} {fits : Node → Bool}
    (ns : List Node)
    (hg : ∀ n, (g n (planned n)).evaluable ctx = ((planned n).evaluable ctx && fits n)) :
    (ns.zipWith g (ns.map planned)).all (evaluable ctx) =
      ((ns.map planned).all (evaluable ctx) && ns.all fits) := by
  rw [List.zipWith_map_right, List.zipWith_self, all_map_and ns hg, all_map]

theorem evaluable_planTime (planned : Node) :
    (planTime ctx planned).evaluable ctx = (planned.evaluable ctx && planned.canAggregate ctx) := by
  simp [planTime]

/-- The arguments of a call that are planned. -/
def plannedArguments (f : Function) (args : List Node) : List Node :=
  if f = .override then args.take 1 else args

theorem all_planArguments {parent : Parent} {f : Function} {phase : Phase}
    {a? : Option Aggregation} {args : List Node} (planned : Node → Node)
    (constants : ∀ n ∈ args, n.evaluable ctx = true) :
    (planArguments ctx parent f phase a? args (args.map planned)).all (evaluable ctx) =
      (((plannedArguments f args).map planned).all (evaluable ctx) &&
        argumentsFit ctx parent f phase planned args) := by
  cases args with
  | nil => cases f <;> rfl
  | cons n ns =>
    have dimensions (ns : List Node) := all_map_and (ns.map planned) (@evaluable_toDimension ctx)
    have times := all_map_and (ns.map planned) (@evaluable_planTime ctx)
    unfold planArguments argumentsFit plannedArguments
    cases f with
    | coalesce =>
      refine all_zipWith (n :: ns) ?_
      intro n
      cases moved : decide (n.phase ctx = .metricPre) <;> simp_all
    | merge =>
      rw [if_neg (by decide), dimensions, all_map (Target.dimension.takes ctx)]
    | contains =>
      cases parent with
      | none => simp
      | root => simp
      | node q => cases metric : q.isMetric <;> simp [metric, Bool.and_right_comm]
    | dateDiff =>
      rw [if_neg (by decide), List.map_cons]
      dsimp only
      by_cases dimension : phase = .dimension
      · rw [if_pos dimension, decide_eq_false (not_not.2 dimension), Bool.false_or, List.all_cons,
          dimensions, all_map (Target.dimension.takes ctx), List.all_cons, Bool.and_assoc]
      · rw [if_neg dimension, decide_eq_true dimension, Bool.true_or, Bool.and_true]
    | override =>
      have rest := List.all_eq_true.2 (List.forall_mem_cons.1 constants).2
      rw [if_pos rfl, List.take_succ_cons, List.take_zero, List.map_cons]
      dsimp only
      rw [List.all_cons, rest, evaluable_toDimension, List.map_singleton, List.all_cons,
        List.all_nil, Bool.and_true, Bool.and_true]
    | cumulative | overall =>
      rw [if_neg (by decide), List.map_cons]
      dsimp only
      rw [List.all_cons, times, evaluable_toPostAggregation, List.all_cons,
        all_map (canAggregate ctx)]
      ac_rfl
    | iff | ifs => exact all_zipWith (n :: ns) fun n => evaluable_planBranch phase n _
    | _ => exact (Bool.and_true _).symm

theorem arePlannable_eq (parent : Parent) (f : Function) (args : List Node) :
    arePlannable ctx parent (f = .override) args =
      (plannedArguments f args).all (isPlannable ctx parent) := by
  unfold plannedArguments
  cases args with
  | nil => simp [arePlannable]
  | cons n ns => by_cases h : f = .override <;> simp [arePlannable, arePlannable_all, h]

theorem mem_of_mem_plannedArguments {f : Function} {args : List Node} {n : Node}
    (h : n ∈ plannedArguments f args) : n ∈ args := by
  unfold plannedArguments at h
  split at h
  · exact List.mem_of_mem_take h
  · exact h

theorem isEmpty_planArguments {parent : Parent} {f : Function} {phase : Phase}
    {a? : Option Aggregation} {args planned : List Node}
    (h : planned.map stripped = args.map stripped) :
    (planArguments ctx parent f phase a? args planned).isEmpty = args.isEmpty := by
  have lengths : ((planArguments ctx parent f phase a? args planned).map stripped).length =
      (args.map stripped).length := by
    rw [stripped_planArguments h]
  rw [List.length_map, List.length_map] at lengths
  rw [Bool.eq_iff_iff, List.isEmpty_iff_length_eq_zero, List.isEmpty_iff_length_eq_zero, lengths]

/-- A planned node can be evaluated exactly if its moves take their values. -/
theorem evaluable_plan {n : Node} (filled : n.isFilled = true) (parent : Parent) :
    (n.plan ctx parent).evaluable ctx = n.isPlannable ctx parent := by
  induction n generalizing parent with
  | integer | decimal | text | bool | column | taxon | modelAttribute =>
    rw [plan, evaluable, isPlannable]
  | paren n _ ih | not n _ ih | isNull n _ _ ih => rw [plan, evaluable, isPlannable, ih filled]
  | computed u n _ ih =>
    rw [plan, evaluable, isPlannable]
    cases n.isMissing ctx with
    | true => exact evaluable_of_isFilled filled
    | false => exact ih filled _
  | binary op l r _ hl hr =>
    obtain ⟨left, right⟩ := Bool.and_eq_true_iff.1 filled
    rw [plan, isPlannable]
    dsimp only
    cases op.isNumeric with
    | true =>
      rw [if_pos rfl, if_pos rfl, evaluable, evaluable_planNumericOperand,
        evaluable_planNumericOperand, hl left, hr right]
      ac_rfl
    | false =>
      rw [if_neg Bool.false_ne_true, if_neg Bool.false_ne_true, evaluable,
        evaluable_planLogicalOperand, evaluable_planLogicalOperand, hl left, hr right]
      ac_rfl
  | call f args single _ ih =>
    obtain ⟨each, first⟩ := Bool.and_eq_true_iff.1 filled
    rw [allArePlain_eq, List.all_eq_true] at each
    dsimp only at first
    have planned (q : Parent) :
        (args.map (plan ctx q)).map stripped = args.map stripped := by
      rw [List.map_map]
      exact List.map_congr_left fun n _ => stripped_plan n q
    have operands (q : Parent) :
        ((plannedArguments f args).map (plan ctx q)).all (evaluable ctx) =
          (plannedArguments f args).all (isPlannable ctx q) := by
      rw [all_map, Bool.eq_iff_iff, List.all_eq_true, List.all_eq_true]
      refine forall₂_congr fun n hn => ?_
      have hn := mem_of_mem_plannedArguments hn
      rw [ih n hn (each n hn)]
    rw [plan, isPlannable, evaluable, planEach_eq, allEvaluable_eq,
      isEmpty_planArguments (planned _), first, Bool.and_true,
      all_planArguments _ fun n hn => evaluable_of_isFilled (each n hn), operands, arePlannable_eq]
  | transition => cases filled
  | root n _ ih =>
    rw [plan, evaluable, isPlannable]
    cases missing : n.isMissing ctx with
    | true => rw [if_pos rfl, missing, Bool.true_or, Bool.true_or]
    | false =>
      rw [if_neg Bool.false_ne_true, ← isMissing_stripped, stripped_planRoot, stripped_plan,
        isMissing_stripped, missing, Bool.false_or, Bool.false_or, evaluable_planRoot, ih filled]

end Node

open Node

/-- A formula without faults has an outcome exactly if its plan takes all values that it moves, and
fails by a defect otherwise. -/
theorem renderTaxon_ok_iff_isPlannable {ctx : Context} {formula : String} {n : Node}
    (hn : rootOfFormula ctx none formula = .ok n) (hf : n.faults ctx = []) :
    ((∃ o, renderTaxon ctx formula = .ok o) ↔
        (n.simplify ctx).isPlannable ctx .none = true) ∧
      ((n.simplify ctx).isPlannable ctx .none = false →
        ∃ d, renderTaxon ctx formula = .error (.defect d)) := by
  have filled : (n.simplify ctx).isFilled = true := isFilled_simplify (isFilled_of_faults hn hf)
  rw [renderTaxon_eq_outcome hn hf, ← evaluable_plan filled]
  rcases outcome_cases ((n.simplify ctx).plan ctx .none) with ⟨fits, o, ho⟩ | ⟨unfit, d, hd⟩
  · rw [ho, fits]
    exact ⟨⟨fun _ => rfl, fun _ => ⟨o, rfl⟩⟩, fun h => absurd h (by decide)⟩
  · rw [hd, unfit]
    refine ⟨⟨?_, fun h => absurd h (by decide)⟩, fun _ => ⟨d, rfl⟩⟩
    rintro ⟨o, h⟩
    cases h

def salesTaxon (slug : String) (type : TaxonType) (aggregation : Aggregation)
    (validation : ValidationType) : Taxon :=
  ⟨slug, slug, none, type, .raw aggregation, validation, "shop", none, none, none⟩

/-- Two dimensions and two metrics of no data source. -/
def salesContext : Context :=
  { Context.ofTaxons (Taxon.mapOf
      [salesTaxon "new" .dimension .groupBy .boolean, salesTaxon "paid" .dimension .groupBy .boolean,
        salesTaxon "sales" .metric .sum .numeric, salesTaxon "cost" .metric .sum .numeric]) with
    slug := "out" }

/-- With the aggregated operand first, each dimension is moved once. -/
theorem renderTaxon_aggregated_first :
    ∃ o, renderTaxon salesContext "(sales > cost * cost) AND new AND paid" = .ok o := by
  have plannable :
      (rootOfFormula salesContext none "(sales > cost * cost) AND new AND paid").toOption.any
        fun n => n.faults salesContext = [] ∧
          (n.simplify salesContext).isPlannable salesContext .none = true := by
    decide +kernel
  obtain ⟨n, hn, plannable⟩ := Result.ok_of_any plannable
  obtain ⟨valid, plannable⟩ := of_decide_eq_true plannable
  exact (renderTaxon_ok_iff_isPlannable hn valid).1.2 plannable

/-- With the dimensions first, they are moved past the aggregation together and then aggregated
again. -/
theorem renderTaxon_dimensions_first :
    (match rootOfFormula salesContext none "new AND paid AND (sales > cost * cost)" with
      | .ok n => n.faults salesContext = []
      | .error _ => False) ∧
      renderTaxon salesContext "new AND paid AND (sales > cost * cost)" =
        .error (.defect (.noTransition "metric_pre" "metric_post")) := by
  have valid :
      (rootOfFormula salesContext none "new AND paid AND (sales > cost * cost)").toOption.any
        fun n => n.faults salesContext = [] := by
    decide +kernel
  have fails :
      (match renderTaxon salesContext "new AND paid AND (sales > cost * cost)" with
        | .error (.defect d) => decide (d = .noTransition "metric_pre" "metric_post")
        | _ => false) = true := by
    decide +kernel
  constructor
  · obtain ⟨n, hn, valid⟩ := Result.ok_of_any valid
    rw [hn]
    exact of_decide_eq_true valid
  · split at fails
    · rename_i d failed
      rw [failed, of_decide_eq_true fails]
    · cases fails

end SemanticLayer.Formula
