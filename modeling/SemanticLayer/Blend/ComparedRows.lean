import SemanticLayer.Blend.BlendedRows

/-!
# Rows with a comparison

The same metrics over all data of the company, and their join to the rows of a request.
-/

namespace SemanticLayer

open Sql (Expr Query SelectItem)
open Formula (PreFormula)

/-- A part of a request over all data of its company, for some raw taxons. -/
def SourceRequest.overCompany (p : SourceRequest) (taxons : NameSet) : SourceRequest :=
  { p with
    taxons := taxons.toList
    preaggregationFilter? := none
    order := []
    limit? := none
    offset? := none
    scope := { p.scope with
      preaggregationFilter? := some (.value "company_id" .eq (some (.text p.scope.company))) } }

namespace Dataframe

/-- A column of a comparison: a dimension keeps its name, a metric gets one of its own. -/
def comparedColumn (t : Taxon) (c : DataframeColumn) : DataframeColumn :=
  if t.isDimension then c
  else
    let slug := Slug.comparison c.taxon
    ⟨Identifier.safe slug, slug, c.quantity⟩

/-- The columns of a comparison under their names in it, with the labels of its templates. -/
def compared (df : Dataframe) (templates : SourceTemplates)
    (columns : List (Taxon × DataframeColumn)) : Dataframe :=
  let items := columns.map fun (t, c) => (Expr.col c.name).named (comparedColumn t c).name
  let labels := templates.values.flatten.map fun t => SelectItem.ofColumn t.label
  df.derive ((Query.ofItems (items ++ labels)).fromTable (df.table "comparison_source"))
    (.ofList (columns.map fun (t, c) => ((comparedColumn t c).taxon, comparedColumn t c)))

/-- A metric summed over the groups of a comparison, if its values can be summed. -/
def summedItem (t : Taxon) (c : DataframeColumn) : Result SelectItem :=
  if t.knownAggregation?.any (·.type.isSummed) then .ok ((Expr.sum (.col c.name)).named c.name)
  else .error (.invalidComparison (.unsupportedAggregation c.taxon))

/-- Groups a comparison by its dimensions and the labels of some formulas. -/
def groupedComparison (df : Dataframe) (metrics : SortedMap String Taxon)
    (formulas : List PreFormula) : Result Dataframe := do
  let columns := df.columns.values
  let sums ← columns.filterMapM fun c =>
    match metrics.get? c.name with
    | some t => (summedItem t c).map some
    | none => .ok none
  let dimensions := columns.filter fun c => !metrics.contains c.name
  let groups : NameSet := .ofList (formulas.map (·.label) ++ dimensions.map (·.name))
  return df.derive
    (((Query.ofItems (sums ++ groups.toList.map SelectItem.ofColumn)).fromTable
      (df.table "comparison_source")).groupBy (groups.toList.map .col)) df.columns

/-- The condition that two tables agree on a column; null agrees with null. -/
def sameColumn (left right name : String) : Expr :=
  let l := Expr.tableCol left name
  let r := Expr.tableCol right name
  (l.eq r).or ((Expr.isNull l false).and (.isNull r false))

def dataAlias : String := "data_dataframe"

def comparisonAlias : String := "comparison_dataframe"

/-- The condition that data and comparison agree on all columns. -/
def matchCondition (names : List String) : Expr :=
  match names.map (sameColumn dataAlias comparisonAlias) with
  | [] => .bool true
  | c :: cs => cs.foldl .and c

/-- The columns of data with its comparison. -/
def joinedItems (data comparison : Dataframe) (formulas : List PreFormula) :
    SortedMap String SelectItem :=
  let item (table name : String) : String × SelectItem :=
    (name, (Expr.tableCol table name).named name)
  let metrics := (comparison.columns.filter fun slug _ => Slug.isComparison slug).values
  .ofList (data.columns.values.map (fun c => item dataAlias c.name) ++
    metrics.map (fun c => item comparisonAlias c.name) ++
    formulas.map fun f => item dataAlias f.label)

/-- Joins a comparison to the data; rows without a match stay. -/
def withComparison (data comparison : Dataframe) (plan : BlendPlan) : Dataframe :=
  let items := (joinedItems data comparison plan.dimensionFormulas).values
  together [data, comparison]
    (((Query.ofItems items).fromTable (data.table dataAlias)).join .left
      (comparison.table comparisonAlias) (matchCondition plan.comparisonColumns))

end Dataframe

namespace PlannedRequest

/-- The rows of one part over all data of the company. -/
def comparisonRows (r : PlannedRequest) (p : SourceRequest) (taxons : NameSet)
    (physicalSources? : Option NameSet) : Result SourceRows := do
  let p := p.overCompany taxons
  let dataSource ← p.dataSource
  let filterTemplates ← BlendPlan.filterTemplatesOf r.taxons dataSource
    [p.scope.preaggregationFilter?]
  return { part := p
           taxons := r.taxons
           templates := (r.plan.comparisonTemplates.get? dataSource).getD []
           filterTemplates
           physicalSources? }

/-- The data of all parts over the company; a part without comparable taxons has none. -/
def comparisonSources (r : PlannedRequest) (c : ComparisonRequest) (models : List Model)
    (physicalSources? : Option NameSet) : Result (List Dataframe) :=
  r.request.parts.filterMapM fun p => do
    let taxons ← r.comparisonPartTaxons c p
    if taxons.isEmpty then return none
    else return some (← (← r.comparisonRows p taxons physicalSources?).dataframe models)

/-- The comparison that a request asks for, if there is anything to compare. -/
def comparison? (r : PlannedRequest) (tables : OverrideTables) (models : List Model)
    (physicalSources? : Option NameSet) : Result (Option Dataframe) := do
  match r.request.comparison? with
  | none => return none
  | some c =>
    let sources ← r.comparisonSources c models physicalSources?
    if sources.isEmpty then return none
    let blended ← Dataframe.blend r.taxons r.plan.comparisonTemplates sources
    let columns ← blended.columns.toList.mapM fun (slug, c) => (r.taxon slug).map (·, c)
    let df := blended.compared r.plan.comparisonTemplates columns
    let formulas := r.plan.comparisonFormulas
    if formulas.isEmpty then return some df
    let metrics := columns.filter fun (t, _) => !t.isDimension
    let df ← df.withFormulas formulas tables r.plan.comparisonOverrides
    return some (← df.groupedComparison
      (.ofList (metrics.map fun (t, c) => ((Dataframe.comparedColumn t c).name, t))) formulas)

end PlannedRequest

end SemanticLayer
