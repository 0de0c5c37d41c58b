import SemanticLayer.Blend.MetricRows

/-!
# Answers

The one query that answers a request: the taxons that were asked for, ordered and limited.
-/

namespace SemanticLayer

open Sql (Expr Query SelectItem)

/-- What requests are answered from. -/
structure Catalog where
  taxons : TaxonMap
  /-- The models, validated and augmented. -/
  models : List Model
  mappings : List OverrideMapping

structure Options where
  dialect : Sql.Dialect
  /-- Whether a fallback takes the place of an aggregation that is not set. -/
  useFallback : Bool
  /-- The most override mappings that one request may use. -/
  maxMappings : Nat
  /-- The models that a request for taxons of any source may use. -/
  visibility : Visibility

def Options.default : Options := ⟨.snowflake, true, 10, .available⟩

namespace Dataframe

/-- The column of a taxon in the answer; arrays are text. -/
def answerItem (df : Dataframe) (t : Taxon) : Result SelectItem :=
  match df.columns.get? t.slug with
  | none => .error (.defect (.taxonNotComputed t.slug))
  | some c =>
    let value := match c.quantity with
      | .array => Expr.cast (.col c.name) .text
      | .scalar => .col c.name
    .ok (value.named t.columnName)

/-- The order by a taxon of the answer. -/
def answerOrder (taxons : TaxonMap) (o : TaxonOrder) : Result (Sql.Ordered Expr) :=
  match taxons.get? (Slug.withoutQuotes o.taxon) with
  | some t => .ok (o.order.by (.col t.columnName))
  | none => .error (.invalidRequest (.orderNotSelected o.taxon))

/-- Selects the taxons of the answer, ordered and limited as the request says. -/
def project (df : Dataframe) (taxons : TaxonMap) (r : BlendRequest) : Result Dataframe := do
  let order ← r.order.mapM (answerOrder taxons)
  let items ← taxons.values.mapM df.answerItem
  let query := (((Query.ofItems items).fromTable (df.table "projection_source")).orderBy
    order).page r.limit? r.offset?
  return df.derive query
    (.ofList (taxons.values.map fun t => (t.slug, ⟨t.columnName, t.slug, .scalar⟩)))

end Dataframe

namespace PlannedRequest

/-- The rows of one part. -/
def partRows (r : PlannedRequest) (p : SourceRequest) (physicalSources? : Option NameSet) :
    Result SourceRows := do
  let taxons ← r.partTaxons p
  let dataSource ← p.dataSource
  return { part := { p with taxons := taxons.toList }
           taxons := r.taxons
           templates := (r.plan.sourceTemplates.get? dataSource).getD []
           filterTemplates := (r.plan.filterTemplates.get? dataSource).getD .empty
           physicalSources? }

/-- The blended rows of all parts, with the dimensions of the plan. -/
def data (r : PlannedRequest) (tables : OverrideTables) (models : List Model)
    (physicalSources? : Option NameSet) : Result Dataframe := do
  let sources ← r.request.parts.mapM fun p => do
    (← r.partRows p physicalSources?).dataframe models
  (← Dataframe.blend r.taxons r.plan.sourceTemplates sources).withFormulas
    r.plan.dimensionFormulas tables r.plan.overrides

/-- The query that answers a planned request.  A comparison without metrics is left out. -/
def answer (r : PlannedRequest) (c : Catalog) (maxMappings : Nat) : Result Dataframe := do
  let plan := r.plan
  let company ← r.request.company
  let uses := plan.overrides.keys ++ plan.comparisonOverrides.keys
  let tables ← OverrideTables.load c.mappings company uses maxMappings
  let physicalSources? := r.request.physicalSources?.map SortedSet.ofList
  let data ← r.data tables c.models physicalSources?
  let rows :=
    match ← r.comparison? tables c.models physicalSources? with
    | none => data
    | some comparison =>
      if comparison.columns.keys.any Slug.isComparison then data.withComparison comparison plan
      else data
  (← rows.withMetrics plan r.request).project (← r.answered) r.request

end PlannedRequest

namespace Catalog

/-- The query that answers a request. -/
def answer (c : Catalog) (o : Options) (r : BlendRequest) : Result Dataframe := do
  r.validate
  (← PlannedRequest.load c.taxons o.useFallback (← r.distributed)).answer c o.maxMappings

end Catalog

end SemanticLayer
