import SemanticLayer.Formula.Typing

/-!
# Plans

A planned node has a transition wherever a value of an earlier phase is used in a later one.
Each transition is computed by a stage of the query of its own.
-/

namespace SemanticLayer.Formula

/-- What a node is planned under. -/
inductive Parent where
  | none
  | root
  | node (phase : Phase)
  deriving DecidableEq

/-- The phase a node is wanted in. -/
def Parent.phase? : Parent → Option Phase
  | .none => Option.none
  | .root => some .metricPost
  | .node p => some p

namespace Node

/-- Moves a dimension into the aggregation.  A value of one data source first becomes a dimension
of the whole request. -/
def aggregated (ctx : Context) (n : Node) (aggregation? : Option Aggregation)
    (label? : Option String) : Node :=
  if n.phase ctx = .dimensionDataSource then n.toDimension.toAggregation none label?
  else n.toAggregation aggregation? label?

/-- The operand of a numeric operation, given as it is and planned. -/
def planNumericOperand (ctx : Context) (post : Bool) (n planned : Node) : Node :=
  if post && n.phase ctx ≠ .metricPost then planned.toPostAggregation (n.aggregation? ctx) none
  else planned

/-- The operand of a logical operation: a dimension under a metric is aggregated, and a metric
before aggregation under one after it is moved past the aggregation. -/
def planLogicalOperand (ctx : Context) (parent : Parent) (n planned : Node) : Node :=
  let isAggregated := parent.phase?.any Phase.isMetric && (n.phase ctx).isDimension
  let moved := if isAggregated then planned.aggregated ctx (n.aggregation? ctx) none else planned
  let current := if isAggregated then moved else n
  if parent.phase? = some .metricPost && current.phase ctx = .metricPre then
    moved.toPostAggregation (current.aggregation? ctx) none
  else moved

/-- An argument of a condition is moved into the phase of the condition. -/
def planBranch (ctx : Context) (phase : Phase) (n planned : Node) : Node :=
  match phase with
  | .dimension => planned.toDimension
  | .metricPre => planned.aggregated ctx (n.aggregation? ctx) none
  | .metricPost => planned.toPostAggregation (n.aggregation? ctx) none
  | _ => planned

/-- The time of a running total is grouped by. -/
def planTime (ctx : Context) (planned : Node) : Node :=
  (planned.aggregated ctx none none).toPostAggregation (some .groupBy) none

/-- The arguments of a call in their places, given as they are and planned. -/
def planArguments (ctx : Context) (parent : Parent) (f : Function) (phase : Phase)
    (aggregation? : Option Aggregation) (args planned : List Node) : List Node :=
  match f, args, planned with
  | .coalesce, _, _ =>
    args.zipWith (fun n p =>
      if n.phase ctx = .metricPre then p.toPostAggregation aggregation? none else p) planned
  | .merge, _, _ => planned.map toDimension
  | .contains, _, p :: ps =>
    match parent with
    | .node q => if q.isMetric then p.aggregated ctx none none :: ps else p :: ps
    | _ => p :: ps
  | .dateDiff, _, p :: ps => if phase = .dimension then p :: ps.map toDimension else p :: ps
  | .override, _ :: ns, p :: _ => p.toDimension :: ns
  | .cumulative, _, p :: ps => p.toPostAggregation aggregation? none :: ps.map (planTime ctx)
  | .overall, _, p :: ps => p.toPostAggregation aggregation? none :: ps.map (planTime ctx)
  | .iff, _, _ => args.zipWith (planBranch ctx phase) planned
  | .ifs, _, _ => args.zipWith (planBranch ctx phase) planned
  | _, _, _ => planned

/-- A whole formula ends after the aggregation, or before it if one subrequest uses it. -/
def planRoot (ctx : Context) (planned : Node) : Node :=
  let phase := planned.phase ctx
  let aggregation? := planned.aggregation? ctx
  let label? := some ctx.slug
  if ctx.subrequestOnly then
    if phase = .dimensionDataSource then planned.toDimension else planned
  else
    match phase with
    | .dimensionDataSource =>
      (planned.toDimension.toAggregation none label?).toPostAggregation aggregation? label?
    | .dimension => (planned.toAggregation none label?).toPostAggregation aggregation? label?
    | .any => (planned.toAggregation none none).toPostAggregation (some .notSet) none
    | .metricPre => planned.toPostAggregation aggregation? label?
    | _ => planned

mutual

/-- Plans a node under its parent. -/
def plan (ctx : Context) (parent : Parent) : Node → Node
  | .integer n p => .integer n p
  | .decimal x p => .decimal x p
  | .text s p => .text s p
  | .bool b p => .bool b p
  | .column s p => .column s p
  | .taxon u p => .taxon u p
  | .attribute u e p => .attribute u e p
  | .paren n p => .paren (n.plan ctx (.node (n.phase ctx))) p
  | .computed u n p =>
    .computed u (if n.isMissing ctx then n else n.plan ctx (.node (n.phase ctx))) p
  | .binary op l r p =>
    let here := Parent.node ((Node.binary op l r p).phase ctx)
    let left := l.plan ctx here
    let right := r.plan ctx here
    if op.isNumeric then
      let post := isPost ctx op l r
      .binary op (planNumericOperand ctx post l left) (planNumericOperand ctx post r right) p
    else .binary op (planLogicalOperand ctx parent l left) (planLogicalOperand ctx parent r right) p
  | .not n p => .not (n.plan ctx (.node (n.phase ctx))) p
  | .isNull n negated p => .isNull (n.plan ctx (.node (n.phase ctx))) negated p
  | .call f args single p =>
    let whole := Node.call f args single p
    let phase := whole.phase ctx
    .call f
      (planArguments ctx parent f phase (whole.aggregation? ctx) args
        (planEach ctx (.node phase) args))
      single p
  | .transition t n a l p =>
    if t = .aggregation && n.phase ctx = .dimensionDataSource then
      n.toDimension.toAggregation none l
    else .transition t n a l p
  | .root n p => .root (if n.isMissing ctx then n else planRoot ctx (n.plan ctx .root)) p

def planEach (ctx : Context) (parent : Parent) : List Node → List Node
  | [] => []
  | n :: ns => n.plan ctx parent :: planEach ctx parent ns

end

end Node

end SemanticLayer.Formula
