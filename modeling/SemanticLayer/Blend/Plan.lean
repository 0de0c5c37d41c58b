import SemanticLayer.Blend.RequestTaxons
import SemanticLayer.Formula.Evaluation

/-!
# Plans of requests

The formulas of all taxons that a request needs, by the stage that computes them: in the query of
one data source, over the blended rows, or after aggregation.
-/

namespace SemanticLayer

open Formula (PreFormula PostFormula SourceTemplate)

/-- How a data source computes the taxons that filter its rows. -/
abbrev FilterTemplates := SortedMap String SourceTemplate

/-- Templates by their data source. -/
abbrev SourceTemplates := SortedMap String (List SourceTemplate)

structure BlendPlan where
  sourceTemplates : SourceTemplates
  comparisonTemplates : SourceTemplates
  dimensionFormulas : List PreFormula
  comparisonFormulas : List PreFormula
  metricFormulas : List PreFormula
  /-- Each taxon with the formula of its last stage. -/
  results : List (Taxon × PostFormula)
  filterTemplates : SortedMap String FilterTemplates
  /-- The columns on which data and comparison are matched. -/
  comparisonColumns : List String
  /-- Dimensions of the comparison that are read from models. -/
  comparisonRaw : List String
  overrides : OverrideUses
  comparisonOverrides : OverrideUses

def SourceTemplates.add (ts : SourceTemplates) (new : List SourceTemplate) : SourceTemplates :=
  new.foldl (fun ts t => ts.alter t.dataSource fun known? => known?.getD [] ++ [t]) ts

namespace BlendPlan

def empty : BlendPlan := ⟨.empty, .empty, [], [], [], [], .empty, [], [], .empty, .empty⟩

/-- The failures of a formula itself name the taxon whose formula it is. -/
def blame (slug : String) : Error → Error
  | .unexpectedSymbol s l => .failedCalculation slug (.unexpectedSymbol s l)
  | .invalidFormula fs => .failedCalculation slug (.invalidFormula fs)
  | .referenceDepth n => .failedCalculation slug (.referenceDepth n)
  | e => e

/-- The formula of a computed taxon over some data sources.  Labels are numbered under a name. -/
def render (taxons : TaxonMap) (t : Taxon) (label : String) (dataSources : NameSet)
    (inSourceOnly : Bool) : Result Formula.Outcome :=
  match t.calculation? with
  | none => .error (.defect (.noCalculation t.slug))
  | some calculation =>
    let ctx : Formula.Context :=
      { Formula.Context.ofTaxons taxons with
        slug := label
        type := t.type
        dataSources? := some dataSources
        isBenchmark := t.isComparison
        subrequestOnly := inSourceOnly }
    (Formula.renderTaxon ctx calculation).mapError (blame t.slug)

/-- Adds a computed taxon of the answer, over the data sources that are asked for it. -/
def addComputed (ts : RequestTaxons) (plan : BlendPlan) (t : Taxon) : Result BlendPlan := do
  let asked := t.comparisonOrigin?.getD t.slug
  let o ← render ts.taxons t t.slug ((ts.askedOf.get? asked).getD .empty) false
  return { plan with
    sourceTemplates := plan.sourceTemplates.add o.sourceTemplates
    dimensionFormulas := plan.dimensionFormulas ++ o.dimensionFormulas
    metricFormulas := plan.metricFormulas ++ o.preFormulas
    results := plan.results ++ [(t, o.post)]
    overrides := plan.overrides.merge o.overrides }

/-- Adds a raw taxon of the answer: its column, aggregated. -/
def addRaw (plan : BlendPlan) (t : Taxon) (aggregation : Aggregation) : BlendPlan :=
  let column := Sql.Expr.col t.columnName
  { plan with
    metricFormulas := plan.metricFormulas ++ [.of column t.slug aggregation]
    results := plan.results ++ [(t, ⟨column, none, .empty⟩)] }

/-- Adds a taxon of the answer. -/
def addTaxon (ts : RequestTaxons) (plan : BlendPlan) (t : Taxon) : Result BlendPlan :=
  match t.definition with
  | .computed _ => addComputed ts plan t
  | .raw declared => .ok (plan.addRaw t ((t.facts?.bind (·.aggregation?)).getD declared))

/-- The label of a dimension of the comparison. -/
def comparisonLabel (slug : String) : String := "comp_join_col_" ++ slug

/-- Adds a dimension of the comparison, on which data and comparison are matched. -/
def addComparisonTaxon (ts : RequestTaxons) (plan : BlendPlan) (slug : String) :
    Result BlendPlan := do
  match ts.taxons.get? (Slug.withoutQuotes slug) with
  | none => throw (.defect (.comparisonTaxonNotLoaded slug))
  | some t =>
    if t.isComputed then
      let o ← render ts.taxons t (comparisonLabel t.slug) ts.dataSources false
      return { plan with
        sourceTemplates := plan.sourceTemplates.add o.sourceTemplates
        comparisonTemplates := plan.comparisonTemplates.add o.sourceTemplates
        dimensionFormulas := plan.dimensionFormulas ++ o.dimensionFormulas
        comparisonFormulas := plan.comparisonFormulas ++ o.dimensionFormulas
        comparisonColumns := plan.comparisonColumns ++ o.dimensionFormulas.map (·.label)
        overrides := plan.overrides.merge o.overrides
        comparisonOverrides := plan.comparisonOverrides.merge o.overrides }
    else
      return { plan with
        comparisonColumns := plan.comparisonColumns ++ [t.columnName]
        comparisonRaw := plan.comparisonRaw ++ [t.slug] }

/-- How a data source computes a taxon that filters its rows. -/
def filterTemplate (taxons : TaxonMap) (dataSource : String) (t : Taxon) :
    Result SourceTemplate := do
  if t.isComputed then
    let o ← render taxons t t.slug (.singleton dataSource) true
    match o.sourceTemplates with
    | template :: _ => return template
    | [] => throw (.defect (.noFilterTemplate t.slug dataSource))
  else return .of (.placeholder t.slug) t.slug dataSource (.singleton t.slug)

/-- How a data source computes the taxons of filters.  Rows are filtered before aggregation, so
the taxons are dimensions. -/
def filterTemplatesOf (taxons : TaxonMap) (dataSource : String)
    (filters : List (Option FilterClause)) : Result FilterTemplates :=
  (filters.flatMap fun f? => (f?.map fun f => f.slugs.toList).getD []).foldlM (fun found slug =>
    match taxons.get? slug with
    | none => .error (.defect (.filterTaxonNotLoaded slug))
    | some t =>
      if !t.isDimension then .error (.invalidRequest (.metricPreaggregationFilter t.slug))
      else (filterTemplate taxons dataSource t).map (found.insert t.slug)) .empty

/-- Adds the templates for the filters of a part, in place of those known for its data source. -/
def addFilters (ts : RequestTaxons) (plan : BlendPlan) (p : SourceRequest) : Result BlendPlan := do
  let dataSource ← p.dataSource
  let templates ← filterTemplatesOf ts.taxons dataSource
    [p.preaggregationFilter?, p.scope.preaggregationFilter?]
  return { plan with filterTemplates := plan.filterTemplates.insert dataSource templates }

end BlendPlan

/-- The plan of a request whose taxons are loaded. -/
def RequestTaxons.plan (ts : RequestTaxons) : Result BlendPlan := do
  let plan ← (← ts.computed).values.foldlM (BlendPlan.addTaxon ts) .empty
  let plan ← ts.request.comparisonTaxons.foldlM (BlendPlan.addComparisonTaxon ts) plan
  ts.request.parts.foldlM (BlendPlan.addFilters ts) plan

/-- A request with its taxons and its plan. -/
structure PlannedRequest extends RequestTaxons where
  plan : BlendPlan

namespace PlannedRequest

def load (taxonomy : TaxonMap) (useFallback : Bool) (r : BlendRequest) : Result PlannedRequest := do
  let ts ← RequestTaxons.load taxonomy useFallback r
  return { ts with plan := ← ts.plan }

/-- The raw taxons that a part selects, for all stages. -/
def partTaxons (r : PlannedRequest) (p : SourceRequest) : Result NameSet := do
  let dataSource ← p.dataSource
  let own : NameSet := .ofList (p.taxons ++ BlendRequest.filterSlugs p.preaggregationFilter?)
  let asked ← r.rawSlugs own dataSource
  let grouped ← r.rawSlugs r.request.groupingTaxons dataSource
  let filtered ← r.rawSlugs (.ofList (BlendRequest.filterSlugs r.request.filter?)) dataSource
  return asked ∪ .ofList r.plan.comparisonRaw ∪ grouped ∪ filtered

/-- The raw taxons that a part selects for the comparison. -/
def comparisonPartTaxons (r : PlannedRequest) (c : ComparisonRequest) (p : SourceRequest) :
    Result NameSet := do
  if c.taxons?.isNone then throw (.invalidComparison .missingTaxons)
  let comparable := (← r.named p.taxons).values.filter Taxon.canCompare
  let raw ← r.rawSlugs (.ofList (comparable.map (·.slug))) (← p.dataSource)
  return .union (.ofList r.plan.comparisonRaw) raw

end PlannedRequest

end SemanticLayer
