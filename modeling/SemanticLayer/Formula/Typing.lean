import SemanticLayer.Formula.Scope

/-!
# Type, phase and aggregation of a node

What kind of value a node has, in which phase of the query it can be computed, and how its values
are combined when rows are grouped.
-/

namespace SemanticLayer.Formula

namespace Node

/-- The type of an operation, from the types of the operands that are not missing. -/
def operationType (op : Operator) (operands : List ValueType) : ValueType :=
  if !op.isNumeric then (ValueType.common operands).withData .boolean
  else if operands.isEmpty then .varying .any
  else ValueType.common operands

mutual

def type (ctx : Context) : Node → ValueType
  | .integer .. => .constant .integer
  | .decimal .. => .constant .numeric
  | .text .. => .constant .string
  | .bool .. => .constant .boolean
  | .column .. => .varying .unknown
  | .paren n _ => n.type ctx
  | .taxon u _ =>
    match u.taxon? with
    | some t => .varying (.ofValidation t.validation)
    | none => .varying .noneOptional
  | .attribute .. => .varying .unknown
  | .computed _ n _ => n.type ctx
  | .binary op l r _ =>
    operationType op
      ((if l.isMissing ctx then [] else [l.type ctx]) ++
        if r.isMissing ctx then [] else [r.type ctx])
  | .not n _ => n.type ctx
  | .isNull n _ _ => (n.type ctx).withData .boolean
  | .call f args _ _ => f.type (typeEach ctx args)
  | .transition _ n _ _ _ => n.type ctx
  | .root n _ => n.type ctx

def typeEach (ctx : Context) : List Node → List ValueType
  | [] => []
  | n :: ns => n.type ctx :: typeEach ctx ns

end

/-- The phase of a taxon without a calculation. -/
def usePhase (u : TaxonUse) : Phase :=
  if u.isMetric then .metricPre
  else if u.dataSource?.isSome then .dimensionDataSource
  else .dimension

/-- Whether an operand's value is there and known after aggregation only. -/
def isPostValue (ctx : Context) (n : Node) (phase : Phase) : Bool :=
  !n.isMissing ctx && phase = .metricPost

/-- Whether a numeric operation is computed after aggregation, given the phases of its operands.
A product or a ratio of two aggregated values is, and a sum with a constant. -/
def isPostOperation (ctx : Context) (op : Operator) (l r : Node) (left right : Phase) : Bool :=
  isPostValue ctx l left || isPostValue ctx r right ||
    if op.isStrict then
      (l.type ctx).isConstant && (r.type ctx).isConstant ||
        !(l.used ctx).isEmpty && !(r.used ctx).isEmpty
    else
      !l.isMissing ctx && (l.used ctx).isEmpty || !r.isMissing ctx && (r.used ctx).isEmpty

mutual

def phase (ctx : Context) : Node → Phase
  | .integer .. => .any
  | .decimal .. => .any
  | .text .. => .any
  | .bool .. => .any
  | .column .. => .any
  | .paren n _ => n.phase ctx
  | .taxon u _ => usePhase u
  | .attribute u _ _ => usePhase u
  | .computed _ n _ => n.phase ctx
  | .binary op l r _ =>
    if op.isNumeric then
      if isPostOperation ctx op l r (l.phase ctx) (r.phase ctx) then .metricPost else .metricPre
    else if isPostValue ctx l (l.phase ctx) || isPostValue ctx r (r.phase ctx) then .metricPost
    else (l.phase ctx).latest (r.phase ctx)
  | .not n _ => n.phase ctx
  | .isNull n _ _ => n.phase ctx
  | .call f args _ _ => f.phase (phaseEach ctx args)
  | .transition t _ _ _ _ => t.phase
  | .root .. => .metricPost

def phaseEach (ctx : Context) : List Node → List Phase
  | [] => []
  | n :: ns => n.phase ctx :: phaseEach ctx ns

end

/-- Whether a numeric operation on two nodes is computed after aggregation. -/
def isPost (ctx : Context) (op : Operator) (l r : Node) : Bool :=
  isPostOperation ctx op l r (l.phase ctx) (r.phase ctx)

/-- The aggregation of a taxon without a calculation. -/
def useAggregation (u : TaxonUse) : Aggregation :=
  match u.taxon? with
  | none => .notSet
  | some t => t.aggregation?.getD (if t.type = .metric then .notSet else .groupBy)

mutual

/-- The aggregation of the value; none if its parts do not agree on one. -/
def aggregation? (ctx : Context) : Node → Option Aggregation
  | .integer .. => some .notSet
  | .decimal .. => some .notSet
  | .text .. => some .notSet
  | .bool .. => some .notSet
  | .column .. => some .notSet
  | .paren n _ => n.aggregation? ctx
  | .taxon u _ => some (useAggregation u)
  | .attribute u _ _ => some (useAggregation u)
  | .computed _ n _ => n.aggregation? ctx
  | .binary op l r _ =>
    if op.isNumeric then Aggregation.common? .notSet [l.aggregation? ctx, r.aggregation? ctx]
    else some .groupBy
  | .not .. => some .groupBy
  | .isNull .. => some .groupBy
  | .call f args _ _ => f.aggregation? ctx.type (aggregationEach ctx args)
  | .transition .dimension n _ _ _ => n.aggregation? ctx
  | .transition _ _ a _ _ => some a
  | .root n _ => n.aggregation? ctx

def aggregationEach (ctx : Context) : List Node → List (Option Aggregation)
  | [] => []
  | n :: ns => n.aggregation? ctx :: aggregationEach ctx ns

end

end Node

end SemanticLayer.Formula
