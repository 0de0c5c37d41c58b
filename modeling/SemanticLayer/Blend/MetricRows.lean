import SemanticLayer.Blend.ComparedRows

/-!
# Aggregated rows

The metrics of a request over its blended rows.  Each formula is first computed on the rows and
aggregated, grouped by the dimensions; what is left of the formula is computed on the aggregates.
-/

namespace SemanticLayer

open Sql (Expr Query SelectItem)
open Formula (PreFormula)

namespace BlendPlan

/-- The formulas to aggregate, each label once. -/
def distinctFormulas (formulas : List PreFormula) : List PreFormula :=
  (formulas.foldl (fun (seen, kept) f =>
    if f.label ∈ seen then (seen, kept) else (f.label :: seen, f :: kept))
    (([], []) : List String × List PreFormula)).2.reverse

/-- The metrics among the formulas, summed. -/
def sums (plan : BlendPlan) : List SelectItem :=
  ((distinctFormulas plan.metricFormulas).filter fun f => f.aggregation.type.isSummed).map
    fun f => (Expr.sum f.formula).named f.label

/-- The formulas that rows are grouped by, by label. -/
def groups (plan : BlendPlan) : SortedMap String Expr :=
  .ofList (((distinctFormulas plan.metricFormulas).filter fun f =>
    !f.aggregation.type.isSummed).map fun f => (f.label, f.formula))

end BlendPlan

namespace Dataframe

/-- Stands for the dimensions that a grouping set leaves out. -/
def leftOutMarker : String := "PANORAMIC_GROUPINGSETS_NULL"

/-- The common table that all grouping sets read. -/
def groupingTable : String := "__cte_grouping_sets"

def metricSource : String := "metric_source"

/-- The rows aggregated, grouped by all dimensions. -/
def groupedRows (df : Dataframe) (plan : BlendPlan) : Query :=
  let groups := plan.groups
  ((Query.ofItems (plan.sums ++ groups.toList.map fun (l, e) => e.named l)).fromTable
    (df.table metricSource)).groupBy groups.values

/-- The rows with their dimensions as text, so that the marker fits into each. -/
def withTextDimensions (df : Dataframe) (labels : NameSet) : Query :=
  (Query.ofItems (df.query.outputNames.map fun name =>
    if labels.contains name then (Expr.cast (.col name) .text).named name
    else .ofColumn name)).fromTable (df.table metricSource)

/-- The rows aggregated for one grouping set. -/
def groupingSetRows (plan : BlendPlan) (set : List String) : Query :=
  let groups := plan.groups
  let members : NameSet := .ofList (set.map Identifier.safe)
  let item (label : String) (e : Expr) : SelectItem :=
    (if members.contains label then e else .string leftOutMarker).named label
  ((Query.ofItems (plan.sums ++ groups.toList.map fun (l, e) => item l e)).fromTable
    (.named groupingTable)).groupBy (groups.filter fun l _ => members.contains l).values

/-- The rows aggregated for each grouping set. -/
def groupingSetsRows (df : Dataframe) (plan : BlendPlan) (sets : List (List String)) : Query :=
  let rows := df.withTextDimensions plan.groups.keySet
  .unionAll (sets.map fun set => (groupingSetRows plan set).withTable groupingTable rows)

def aggregatedRows (df : Dataframe) (plan : BlendPlan) (groupingSets? : Option (List (List String))) :
    Query :=
  match groupingSets? with
  | none => df.groupedRows plan
  | some [] => df.groupedRows plan
  | some sets => df.groupingSetsRows plan sets

/-- The taxons of the answer with their last formulas, each taxon once. -/
def distinctResults (results : List (Taxon × Formula.PostFormula)) :
    SortedMap String (Taxon × Formula.PostFormula) :=
  results.foldl (fun rs (t, f) => rs.insertIfNew t.slug (t, f)) .empty

/-- The rows that a filter on the answer keeps. -/
def filteredResults (q : Query) (columns : SortedMap String DataframeColumn)
    (filter? : Option FilterClause) : Result Query :=
  match filter? with
  | none => .ok q
  | some f => do
    let condition ← f.condition (columns.mapValues fun _ c => ⟨.col c.name, none, c.quantity⟩)
    return ((Query.empty.select (q.outputNames.map SelectItem.ofColumn)).fromTable
      (.subquery q "metric_result")).filter condition

/-- The metrics and dimensions of the answer. -/
def withMetrics (df : Dataframe) (plan : BlendPlan) (r : BlendRequest) : Result Dataframe := do
  let dimensions := plan.groups.keySet
  let results := distinctResults plan.results
  let quantity (slug : String) : QuantityType :=
    ((df.columns.get? slug).map (·.quantity)).getD .scalar
  let columns := results.mapValues fun slug (t, _) => ⟨t.columnName, t.slug, quantity slug⟩
  let items := results.values.map fun (t, f) => (f.fill dimensions).named t.columnName
  let query := (Query.ofItems items).fromTable
    (.subquery (df.aggregatedRows plan r.groupingSets?) metricSource)
  return df.derive (← filteredResults query columns r.filter?) columns

end Dataframe

end SemanticLayer
