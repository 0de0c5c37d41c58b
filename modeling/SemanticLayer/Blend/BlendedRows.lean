import SemanticLayer.Blend.SourceRows
import SemanticLayer.Override.Query

/-!
# Blended rows

The rows of several data sources in one query, aggregated over the dimensions they share.  A
dimension whose formula needs several sources is computed over the blended rows.
-/

namespace SemanticLayer

open Sql (Expr Query SelectItem)
open Formula (PreFormula)

namespace SourceTemplates

/-- The labels of all templates. -/
def labels (ts : SourceTemplates) : NameSet := .ofList (ts.values.flatten.map (·.label))

end SourceTemplates

namespace Dataframe

/-- The columns of several dataframes, and what they read. -/
def together (dfs : List Dataframe) (query : Query) : Dataframe :=
  { query
    columns := dfs.foldl (fun cs df => cs.merge df.columns) .empty
    models := .unions (dfs.map (·.models))
    physicalSources := .unions (dfs.map (·.physicalSources)) }

/-- The rows of one dataframe among those of all, with null for the columns it lacks. -/
def branch (columns : SortedMap String DataframeColumn) (labels : NameSet) (df : Dataframe)
    (index : Nat) : Query :=
  let outputs := df.query.outputNames
  let taxonItem (slug : String) (c : DataframeColumn) : SelectItem :=
    (if df.columns.contains slug then Expr.col c.name else .null).named c.name
  let labelItem (label : String) : SelectItem :=
    (if label ∈ outputs then Expr.col label else .null).named label
  (Query.ofItems (columns.toList.map (fun (slug, c) => taxonItem slug c) ++
    labels.toList.map labelItem)).fromTable (df.table ("q" ++ toString index))

/-- The columns of some taxons with the taxons. -/
def blendedTaxons (taxons : TaxonMap) (columns : SortedMap String DataframeColumn) :
    Result (List (Taxon × DataframeColumn)) :=
  columns.toList.mapM fun (slug, c) =>
    match taxons.get? slug with
    | some t => .ok (t, c)
    | none => .error (.defect (.blendedTaxonNotLoaded slug))

/-- A blended column: a dimension, or the sum of a metric. -/
def blendedItem (t : Taxon) (c : DataframeColumn) : SelectItem :=
  if t.isDimension then .ofColumn c.name else (Expr.sum (.col c.name)).named c.name

/-- Blends dataframes of several sources.  Dimensions and templates are grouped by, metrics are
summed. -/
def blend (taxons : TaxonMap) (templates : SourceTemplates) (dfs : List Dataframe) :
    Result Dataframe := do
  if dfs.isEmpty then throw (.defect .nothingToBlend)
  let columns := (together dfs .empty).columns
  let labels := templates.labels
  let branches := dfs.zipIdx.map fun (df, i) => df.branch columns labels i
  let blended ← blendedTaxons taxons columns
  let dimensions := (blended.filter fun (t, _) => t.isDimension).map fun (_, c) => c.name
  let query := ((Query.ofItems (blended.map (fun (t, c) => blendedItem t c) ++
    labels.toList.map SelectItem.ofColumn)).fromTable
      (.subquery (.unionAll branches) "blended")).groupBy
        ((dimensions ++ labels.toList).map Expr.col)
  return together dfs query

/-- Adds formulas as columns beside those that are there. -/
def withFormulas (df : Dataframe) (formulas : List PreFormula) (tables : OverrideTables)
    (overrides : OverrideUses) : Result Dataframe := do
  if formulas.isEmpty then return df
  let items : SortedMap String SelectItem :=
    .ofList (df.query.outputNames.map fun name => (name, .ofColumn name))
  let items := formulas.foldl (fun is f => is.insertIfNew f.label (f.formula.named f.label)) items
  let query := (Query.ofItems items.values).fromTable (df.table "dimension_source")
  return df.derive (← tables.join query overrides.toList) df.columns

end Dataframe

end SemanticLayer
