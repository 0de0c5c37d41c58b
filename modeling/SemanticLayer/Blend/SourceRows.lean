import SemanticLayer.Blend.Dataframe
import SemanticLayer.Blend.Plan
import SemanticLayer.Filter.Condition
import SemanticLayer.JoinGraph.Search

/-!
# Rows of one data source

The query for one part of a request.  It reads raw taxons from a tree of joined models, filters
the rows, and aggregates them.  A taxon that is the first or last of its values in some order
needs a pass with window functions over the joined rows before.
-/

namespace SemanticLayer

open Sql (Expr Query SelectItem)
open Formula (SourceTemplate)

/-- A part of a request with all that its query takes from the rest. -/
structure SourceRows where
  part : SourceRequest
  taxons : TaxonMap
  /-- Dimensions to compute among the rows. -/
  templates : List SourceTemplate
  filterTemplates : FilterTemplates
  /-- The connections that the tables may be in; none allows all. -/
  physicalSources? : Option NameSet

def SortOrder.direction : SortOrder → Sql.SortDirection
  | .asc => .asc
  | .desc => .desc

/-- The order by a column; nulls come last. -/
def SortOrder.by (o : SortOrder) (e : Expr) : Sql.Ordered Expr := ⟨e, some o.direction, some .last⟩

/-- The function over a window that computes a taxon, and what sorts the window. -/
def Taxon.window? (t : Taxon) : Option (String × List SortDimension) :=
  match t.knownAggregation? with
  | some (.firstBy sort) => some ("FIRST_VALUE", sort)
  | some (.lastBy sort) => some ("LAST_VALUE", sort)
  | _ => none

/-- A column aggregated; none for a column that rows are grouped by. -/
def AggregationType.aggregate? : AggregationType → Option (Expr → Expr)
  | .sum => some .sum
  | .min => some .min
  | .max => some .max
  | .countAll => some .count
  | .countDistinct => some .countDistinct
  | .avg => some .avg
  | _ => none

namespace TaxonColumns

def sqlOf (columns : TaxonColumns) (slug : String) : Result Expr :=
  match columns.get? slug with
  | some c => .ok c.sql
  | none => .error (.defect (.noAccessor slug))

/-- A template over the columns. -/
def fill (columns : TaxonColumns) (t : SourceTemplate) : Expr :=
  t.fill (columns.mapValues fun _ c => c.sql)

def models (columns : TaxonColumns) : NameSet := .ofList (columns.values.filterMap (·.model?))

end TaxonColumns

namespace SourceRows

/-- The raw ones of the taxons under some slugs. -/
def rawTaxons (s : SourceRows) (slugs : List String) : Result TaxonMap := do
  let ts ← slugs.mapM fun slug =>
    match s.taxons.get? slug with
    | some t => .ok t
    | none => .error (.defect (.taxonNotLoaded slug))
  return Taxon.mapOf (ts.filter fun t => !t.isComputed)

/-- The raw taxons that the part selects or orders by. -/
def selected (s : SourceRows) : Result TaxonMap :=
  s.rawTaxons (s.part.taxons ++ s.part.order.map (·.taxon))

/-- The selected taxons, and all that templates and aggregations read. -/
def read (s : SourceRows) (selected : TaxonMap) : Result TaxonMap := do
  let used : NameSet := .unions ((s.filterTemplates.values ++ s.templates).map (·.used))
  let read := (← s.rawTaxons used.toList).merge selected
  let aggregations := read.values.filterMap fun t => t.facts?.bind (·.aggregation?)
  let sorting : NameSet := .unions (aggregations.map Aggregation.usedSlugs)
  return read.merge (← s.rawTaxons sorting.toList)

def modelOf (models : SortedMap String Model) (slug : String) : Result Model :=
  match models.get? slug with
  | some m => .ok m
  | none => .error (.defect (.noModelForTaxon slug))

/-- Adds the filter templates that are no columns yet. -/
def withFilterTemplates (s : SourceRows) (columns : TaxonColumns) : TaxonColumns :=
  s.filterTemplates.toList.foldl (fun cs (slug, t) => cs.insertIfNew slug (.ofSql (cs.fill t)))
    columns

/-- How each taxon is read from its model. -/
def modelColumns (s : SourceRows) (read : TaxonMap) (models : SortedMap String Model) :
    Result TaxonColumns := do
  let columns ← read.keys.mapM fun slug => do
    let m ← modelOf models slug
    let quantity := ((m.attribute? slug).map (·.quantity)).getD .scalar
    return (slug, (⟨← m.taxonSql slug false, some m.name, quantity⟩ : TaxonColumn))
  return s.withFilterTemplates (.ofList columns)

/-- Narrows the rows by a filter, if there is one. -/
def filtered (q : Query) (filter? : Option FilterClause) (columns : TaxonColumns) : Result Query :=
  match filter? with
  | none => .ok q
  | some f => (f.condition columns).map q.filter

def templateItems (s : SourceRows) (columns : TaxonColumns) : List SelectItem :=
  s.templates.map fun t => (columns.fill t).named t.label

/-- The rows of the models, within the scope. -/
def joinedRows (s : SourceRows) (tree : JoinTree) (g : JoinGraph) (columns : TaxonColumns)
    (items : List SelectItem) : Result Query := do
  filtered (← tree.source g (.ofItems items)) s.part.scope.preaggregationFilter? columns

/-- The rows with the selected taxons. -/
def plainRows (s : SourceRows) (selected : TaxonMap) (tree : JoinTree) (g : JoinGraph)
    (columns : TaxonColumns) : Result Query := do
  let items ← selected.values.mapM fun t => (columns.sqlOf t.slug).map (·.named t.columnName)
  s.joinedRows tree g columns (items ++ s.templateItems columns)

/-- A taxon's value, over the rows with the same identity in its model where it takes a window. -/
def windowItem (models : SortedMap String Model) (columns : TaxonColumns) (t : Taxon) :
    Result SelectItem := do
  let m ← modelOf models t.slug
  let value ← columns.sqlOf t.slug
  match t.window? with
  | none => return value.named t.columnName
  | some (function, sort) =>
    let partition ← m.identifiers.mapM fun a => m.taxonSql a.taxon false
    let order ← sort.mapM fun d => (columns.sqlOf d.taxon).map ((d.order?.getD .asc).by ·)
    return ((Expr.func function [value]).overWindow partition order none).named t.columnName

/-- How taxons are read from the rows of a query that computes them all. -/
def outerColumns (s : SourceRows) (columns : TaxonColumns) : TaxonColumns :=
  s.filterTemplates.toList.foldl
    (fun cs (slug, t) => cs.alter slug fun c? =>
      { c?.getD (.ofSql .null) with sql := cs.fill t })
    (columns.mapValues fun slug c => { c with sql := .col (Identifier.safe slug) })

/-- The rows with the selected taxons, read from the rows with all values over windows. -/
def windowRows (s : SourceRows) (selected read : TaxonMap) (models : SortedMap String Model)
    (tree : JoinTree) (g : JoinGraph) (columns : TaxonColumns) : Result Query := do
  let inner ← s.joinedRows tree g columns (← read.values.mapM (windowItem models columns))
  let items := selected.values.map fun t => SelectItem.ofColumn t.columnName
  return (Query.ofItems (items ++ s.templateItems (s.outerColumns columns))).fromTable
    (.subquery inner "window_source")

/-- A taxon's column, aggregated if its taxon is. -/
def aggregatedItem (t : Taxon) : SelectItem :=
  match t.knownAggregation?.bind (·.type.aggregate?) with
  | some aggregate => (aggregate (.col t.columnName)).named t.columnName
  | none => .ofColumn t.columnName

/-- Whether rows are grouped by a taxon. -/
def isGrouped (t : Taxon) : Bool := (t.knownAggregation?.bind (·.type.aggregate?)).isNone

/-- The columns that rows are grouped by. -/
def groupColumns (s : SourceRows) (selected : TaxonMap) : NameSet :=
  .ofList ((selected.values.filter isGrouped).map (·.columnName) ++ s.templates.map (·.label))

/-- The rows aggregated, ordered and limited, marked with their data source. -/
def aggregated (s : SourceRows) (dataSource : String) (selected : TaxonMap) (rows : Query) :
    Query :=
  let items := selected.values.map aggregatedItem ++
    s.templates.map (fun t => SelectItem.ofColumn t.label) ++
    [(Expr.string dataSource).named Slug.dataSourceColumn]
  let order := s.part.order.map fun o => o.order.by (.col (Identifier.safe o.taxon))
  ((((Query.ofItems items).fromTable (.subquery rows "source_query")).groupBy
    ((s.groupColumns selected).toList.map .col)).orderBy order).page s.part.limit? s.part.offset?

/-- The columns of the selected taxons. -/
def dataframeColumns (selected : TaxonMap) (columns : TaxonColumns) :
    SortedMap String DataframeColumn :=
  .ofList (selected.values.map fun t =>
    (t.slug, ⟨t.columnName, t.slug, ((columns.get? t.slug).map (·.quantity)).getD .scalar⟩))

/-- The query of the part over some models. -/
def dataframe (s : SourceRows) (models : List Model) : Result Dataframe := do
  let dataSource ← s.part.dataSource
  let dataSources : NameSet := .singleton dataSource
  let selected ← s.selected
  let read ← s.read selected
  let usable ← Model.load models s.part.scope ⟨dataSources, s.part.modelName?, s.physicalSources?⟩
  let g ← JoinGraph.build dataSources usable
  let tree ← g.findTree read.keySet
  let columns ← s.modelColumns read tree.taxonModels
  let usesWindow := read.values.any fun t => t.window?.isSome
  let rows ←
    if usesWindow then s.windowRows selected read tree.taxonModels tree g columns
    else s.plainRows selected tree g columns
  let columns := if usesWindow then s.outerColumns columns else columns
  let rows ← filtered rows s.part.preaggregationFilter? columns
  return { query := s.aggregated dataSource selected rows
           columns := dataframeColumns selected columns
           models := columns.models
           physicalSources := .ofList (tree.models.map Model.physicalSource) }

end SourceRows

end SemanticLayer
