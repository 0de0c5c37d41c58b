import SemanticLayer.Formula.Outcome
import SemanticLayer.Formula.Plan
import SemanticLayer.Formula.Resolution
import SemanticLayer.Formula.Simplification
import SemanticLayer.Formula.Validation
import SemanticLayer.Sql.Pattern
import SemanticLayer.Sql.Rendering

/-!
# Evaluation

A planned node is evaluated to SQL.  Each transition with taxons below it becomes a column with a
label: a given one, or the next of the numbered labels of the formula's slug.
-/

namespace SemanticLayer.Formula

open Sql (Expr)

/-- The SQL of a node and what other stages have to compute for it. -/
structure Fragment where
  sql : Expr
  template? : Option Expr
  aggregations : List PreFormula
  dimensionFormulas : List PreFormula
  sourceTemplates : List SourceTemplate
  overrides : OverrideUses
  excluded : NameSet
  label? : Option String

namespace Fragment

def ofSql (sql : Expr) : Fragment := ⟨sql, none, [], [], [], .empty, .empty, none⟩

/-- The SQL in which placeholders may stand. -/
def templateOrSql (r : Fragment) : Expr := r.template?.getD r.sql

/-- The same on both forms of the SQL. -/
def map (r : Fragment) (f : Expr → Expr) : Fragment :=
  { r with sql := f r.sql, template? := some (f r.templateOrSql) }

/-- Adds what another fragment needs. -/
def collect (r s : Fragment) : Fragment :=
  { r with
    aggregations := r.aggregations ++ s.aggregations
    dimensionFormulas := r.dimensionFormulas ++ s.dimensionFormulas
    sourceTemplates := r.sourceTemplates ++ s.sourceTemplates
    overrides := r.overrides.merge s.overrides
    excluded := r.excluded ∪ s.excluded }

/-- One piece of SQL made of several fragments, with what the counted ones need. -/
def combine (f : List Expr → Expr) (parts counted : List Fragment) : Fragment :=
  counted.foldl collect
    { ofSql (f (parts.map (·.sql))) with template? := some (f (parts.map templateOrSql)) }

end Fragment

/-- An evaluation counts the labels it has made. -/
abbrev Evaluation := StateT Nat (Except Error)

/-- The next label. -/
def newLabel (slug : String) : Evaluation String := do
  let n ← get
  set (n + 1)
  return "__" ++ slug ++ toString (n + 1)

/-- The SQL of a numeric operation.  Sums take null for zero, and division by zero is null. -/
def numericSql (op : Operator) (l r : Expr) : Expr :=
  match op with
  | .mul => .binary l .mul r
  | .div => .binary l .div (r.nullif (.int 0))
  | .add => .binary (.coalesce [l, .int 0]) .add (.coalesce [r, .int 0])
  | _ => .binary (.coalesce [l, .int 0]) .sub (.coalesce [r, .int 0])

def operationSql (op : Operator) : List Expr → Expr
  | [l, r] => if op.isNumeric then numericSql op l r else .binary l op.sql r
  | _ => .null

/-- Whether a text contains one of several others. -/
def containsSql (texts : List String) (e : Expr) : Expr :=
  match texts.map fun t =>
    Expr.like e (.string (Sql.Pattern.containing t)) Sql.Pattern.escapeChar false false with
  | [] => .bool false
  | c :: cs => cs.foldl .or c

/-- A number with so many digits after the point; none and zero give an integer. -/
def numberCast (precision? : Option Int64) : Sql.CastType :=
  match precision? with
  | none => .numeric 16
  | some p =>
    if p = 0 then .numeric 16
    else if 0 ≤ p.toInt ∧ p.toInt < UInt32.size then .decimal 16 p.toInt.toNat
    else .decimal 16 0

namespace Node

/-- The column of a taxon, or the placeholder of a dimension of one data source. -/
def useSql (ctx : Context) (u : TaxonUse) : Expr :=
  let compares := ctx.isBenchmark && u.taxon?.any fun t => !t.isDimension
  if u.isMetric || u.dataSource?.isNone then
    .col (Identifier.safe (if compares then Slug.comparison u.slug else u.slug))
  else .placeholder u.slug

/-- What stands for an outcome that is missing. -/
def missingOutcome (phase : Phase) : Expr := if phase.isMetric then .int 0 else .null

/-- The value of a fragment in one of its forms, if it is there. -/
def outcomeSql (phase : Phase) (form : Fragment → Expr) (r : Fragment × Bool) : Expr :=
  if r.2 then missingOutcome phase else form r.1

/-- A condition over evaluated arguments, each with whether it is missing. -/
def conditionSql (phase : Phase) (form : Fragment → Expr) (args : List (Fragment × Bool)) : Expr :=
  .caseWhen
    ((Condition.branches (Condition.paired args)).map fun (test, outcome) =>
      (if test.2 then .bool false else form test.1, outcomeSql phase form outcome))
    (some (match Condition.otherwise? args with
      | some r => outcomeSql phase form r
      | none => missingOutcome phase))

def evaluateCondition (phase : Phase) (args : List (Fragment × Bool)) : Fragment :=
  let present := (args.filter fun r => !r.2).map (·.1)
  present.foldl Fragment.collect
    { Fragment.ofSql (conditionSql phase (·.sql) args) with
      template? := some (conditionSql phase (·.templateOrSql) args) }

/-- The replacement of a column's values.  Values without one show as unknown, or are gone. -/
def evaluateOverride (mapping : String) (keepsMissing : Bool) (r : Fragment) : Fragment :=
  let key : OverrideKey := ⟨r.sql.text .snowflake, mapping, keepsMissing⟩
  let replacement := Expr.tableCol key.identifier OverrideUses.replacementColumn
  let shown :=
    if keepsMissing then Expr.coalesce [replacement, .string "Unknown"] else replacement
  let sql := Expr.caseWhen [(replacement.eq (.string OverrideUses.nullMarker), .null)] (some shown)
  { r.map fun _ => sql with overrides := SortedMap.empty.insert key r.sql }

/-- The column an expression is, or its text. -/
def columnOrText : Expr → String
  | .column _ name => name
  | e => e.text .snowflake

/-- A running total over a time, within the groups of the other dimensions. -/
def evaluateCumulative (metric time : Fragment) (timeTaxons : NameSet) : Fragment :=
  let order : List (Sql.Ordered Expr) := [⟨time.sql, none, none⟩]
  let total := Expr.overWindow metric.sql.sum [] order (some .toCurrentRow)
  let grouped :=
    Expr.overWindow metric.sql.sum [.placeholder dimensionsPlaceholder] order (some .toCurrentRow)
  let r := ({ Fragment.ofSql total with template? := some grouped }.collect metric).collect time
  { r with excluded := (r.excluded.insert (columnOrText time.sql)) ∪ timeTaxons }

/-- The SQL of a call whose value is that of its first argument, changed. -/
def changeFirst (f : Function) (change : Expr → Expr) : List Fragment → Result Fragment
  | [] => .error (.defect (.noArguments f.name))
  | r :: _ => .ok (r.map change)

/-- A call over evaluated arguments. -/
def evaluateCall (ctx : Context) (f : Function) (phase : Phase) (args : List Node)
    (results : List Fragment) : Result Fragment :=
  let constantAt (i : Nat) : Option Constant := args[i]?.bind constant?
  let textAt (i : Nat) : String := ((constantAt i).map Constant.description).getD ""
  let first : Result Fragment :=
    match results with
    | [] => .error (.defect (.noArguments f.name))
    | r :: _ => .ok r
  match f with
  | .iff => .ok (evaluateCondition phase (results.zip (eachIsMissing ctx args)))
  | .ifs => .ok (evaluateCondition phase (results.zip (eachIsMissing ctx args)))
  | .coalesce => .ok (.combine .coalesce results results)
  | .concat => .ok (.combine (.func "concat") results results)
  | .merge =>
    .ok (.combine (fun es => match es with
      | [e] => e
      | es => .coalesce es) results results)
  | .parse => .ok (.combine (.dialectCall .splitPart) results results)
  | .convertTimezone => do
    let r ← first
    return { r with
      sql := .dialectCall .convertTimezone (results.map (·.sql))
      template? := some (.dialectCall .convertTimezone (results.map (·.templateOrSql))) }
  | .toDate => do
    let r ← first
    let shown := results.take 2
    return { r with
      sql := .dialectCall .toDate (shown.map (·.sql))
      template? := some (.dialectCall .toDate (shown.map (·.templateOrSql))) }
  | .contains =>
    changeFirst f
      (containsSql ((args.drop 1).filterMap fun n => n.constant?.bind Constant.text?)) results
  | .dateTrunc =>
    changeFirst f (fun e => .dialectCall .dateTrunc [.string (textAt 1), e]) results
  | .toText => changeFirst f (fun e => .cast e .text) results
  | .toBool => do
    let r ← first
    return if args.head?.any fun n => (n.type ctx).isBoolean then r
      else r.map fun e => .cast e .boolean
  | .toNumber =>
    changeFirst f (fun e => .cast e (numberCast ((constantAt 1).bind Constant.int?))) results
  | .dateDiff =>
    .ok (match results with
      | _ :: start :: stop :: _ =>
        .combine (fun es => .dialectCall .timestampDiff (.string (textAt 0) :: es))
          [start, stop] [start, stop]
      | _ => .ofSql .null)
  | .override => do
    return evaluateOverride (textAt 1) ((args[2]?.bind asBool?).getD true) (← first)
  | .cumulative =>
    .ok (match results, args with
      | metric :: time :: _, _ :: n :: _ => evaluateCumulative metric time (n.used ctx).all
      | _, _ => .ofSql .null)
  | .overall => do
    let r ← first
    return Fragment.combine (fun es => .overWindow (.func "SUM" es) [] [] none) [r] [r]
  | .now => .ok { Fragment.ofSql (.func "now" []) with template? := some (.func "now" []) }
  | f =>
    match f.truncation?, f.extraction? with
    | some unit, _ => changeFirst f (fun e => .dialectCall .dateTrunc [.string unit, e]) results
    | _, some field => changeFirst f (fun e => .extract field e) results
    | _, _ => changeFirst f (fun e => .func f.name [e]) results

/-- The one data source of a dimension that is computed within it. -/
def singleSource (label : String) (ds : DataSources) : Result String :=
  match ds.named.toList with
  | [single] => .ok single
  | _ => .error (.defect (.ambiguousDataSource label))

/-- Adds the formula of a transition in front of those its stage computes already. -/
def addFormula (target : Target) (n : Node) (aggregation : Aggregation) (label : String)
    (sql : Expr) (r : Fragment) : Result Fragment := do
  match target with
  | .dimension =>
    let source ← singleSource label n.dataSources
    return { r with
      sourceTemplates := .of sql label source n.placeholders :: r.sourceTemplates }
  | .aggregation =>
    return { r with dimensionFormulas := .of sql label .notSet :: r.dimensionFormulas }
  | .postAggregation =>
    return { r with aggregations := .of sql label aggregation :: r.aggregations }

/-- A transition over an evaluated node.  A value that is missing carries nothing along. -/
def evaluateTransition (ctx : Context) (target : Target) (n : Node) (aggregation : Aggregation)
    (label? : Option String) (r : Fragment) : Evaluation Fragment := do
  let phase := n.phase ctx
  if phase = target.phase then return r
  if !target.accepts phase then
    throw (.defect (.noTransition target.phase.name phase.name))
  let carried := if n.isMissing ctx then Fragment.ofSql r.sql else r
  if (n.used ctx).isEmpty then return { carried with label? := label?.or r.label? }
  let label ←
    match label? with
    | some label => pure label
    | none => newLabel ctx.slug
  let column := Expr.col (Identifier.safe label)
  let template? := if n.isMissing ctx then none else some column
  addFormula target n aggregation label r.sql
    { carried with sql := column, template?, label? := some label }

mutual

/-- The SQL of a planned node. -/
def evaluate (ctx : Context) : Node → Evaluation Fragment
  | .integer n _ => return .ofSql (.int n)
  | .decimal x _ => return .ofSql (.float x)
  | .text s _ => return .ofSql (.string s)
  | .bool b _ => return .ofSql (.bool b)
  | .column name _ =>
    return .ofSql (match ctx.modelTable? with
      | some table => .tableCol (Identifier.safe table) name
      | none => .col name)
  | .paren n _ => return (← n.evaluate ctx).map .paren
  | .taxon u _ => return .ofSql (useSql ctx u)
  | .attribute _ sql _ => return .ofSql sql
  | .computed _ n _ => n.evaluate ctx
  | .binary op l r _ => do
    let left ← l.evaluate ctx
    let right ← r.evaluate ctx
    let counted :=
      (if op.isNumeric && l.isMissing ctx then [] else [left]) ++
        if op.isNumeric && r.isMissing ctx then [] else [right]
    return .combine (operationSql op) [left, right] counted
  | .not n _ => return (← n.evaluate ctx).map .not
  | .isNull n negated _ => return (← n.evaluate ctx).map (.isNull · negated)
  | .call f args single place => do
    let results ← evaluateEach ctx args
    evaluateCall ctx f ((Node.call f args single place).phase ctx) args results
  | .transition target n aggregation label? _ => do
    evaluateTransition ctx target n aggregation label? (← n.evaluate ctx)
  | .root n _ => if n.isMissing ctx then return .ofSql .null else n.evaluate ctx

def evaluateEach (ctx : Context) : List Node → Evaluation (List Fragment)
  | [] => return []
  | n :: ns => return (← n.evaluate ctx) :: (← evaluateEach ctx ns)

end

/-- The outcome of a planned node. -/
def outcome (ctx : Context) (n : Node) : Result Outcome := do
  let (r, _) ← (n.evaluate ctx).run 0
  let sql :=
    match r.label? with
    | some label => Expr.col label
    | none => r.sql
  return {
    preFormulas := r.aggregations
    post := ⟨sql, r.template?, r.excluded⟩
    dimensionFormulas := r.dimensionFormulas
    sourceTemplates := r.sourceTemplates
    phase := n.phase ctx
    used := n.used ctx
    isMissing := n.isMissing ctx
    dataSources := n.dataSources
    type := n.type ctx
    placeholders := n.placeholders
    overrides := r.overrides }

end Node

/-- The outcome of a taxon's calculation. -/
def renderTaxon (ctx : Context) (formula : String) : Result Outcome := do
  let n ← Node.rootOfFormula ctx none formula
  match n.faults ctx with
  | [] => ((n.simplify ctx).plan ctx .none).outcome ctx
  | faults => throw (.invalidFormula faults)

/-- The outcome of a model's attribute.  The types of columns are not known, so nothing is
validated, and nothing is aggregated. -/
def renderAttribute (ctx : Context) (model : ModelScope) (formula : String) : Result Outcome := do
  let n ← Node.rootOfFormula ctx (some model) formula
  (n.simplify ctx).outcome ctx

end SemanticLayer.Formula
