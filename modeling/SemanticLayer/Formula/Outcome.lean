import SemanticLayer.Formula.Scope
import SemanticLayer.Override.Use

/-!
# Outcomes of formulas

The SQL of a formula, cut into the parts that the stages of a query compute.  A part that another
stage computes is a labelled column.
-/

namespace SemanticLayer.Formula

/-- A column that is computed before it is aggregated. -/
structure PreFormula where
  formula : Sql.Expr
  label : String
  aggregation : Aggregation

def PreFormula.of (formula : Sql.Expr) (label : String) (aggregation : Aggregation) : PreFormula :=
  ⟨formula, Identifier.safe label, aggregation⟩

/-- A dimension that is computed in the query of one data source.  Its placeholders stand for the
columns of that source. -/
structure SourceTemplate where
  template : Sql.Expr
  label : String
  dataSource : String
  used : NameSet

namespace SourceTemplate

def of (template : Sql.Expr) (label dataSource : String) (used : NameSet) : SourceTemplate :=
  ⟨template, Identifier.safe label, dataSource, used⟩

/-- The template over the columns of its source. -/
def fill (t : SourceTemplate) (columns : SortedMap String Sql.Expr) : Sql.Expr :=
  t.template.substitute columns.get?

end SourceTemplate

/-- The placeholder for the dimensions of a request. -/
def dimensionsPlaceholder : String := "dimension_slugs"

/-- A column that is computed after aggregation. -/
structure PostFormula where
  sql : Sql.Expr
  /-- The formula with a placeholder for the dimensions, if it needs them. -/
  template? : Option Sql.Expr
  /-- Columns that do not count as dimensions of the template. -/
  excluded : NameSet

/-- The formula over the dimensions of a request. -/
def PostFormula.fill (p : PostFormula) (dimensions : NameSet) : Sql.Expr :=
  let columns := (dimensions.diff p.excluded).toList.map Sql.Expr.col
  match p.template? with
  | some t =>
    if columns.isEmpty then p.sql
    else t.substitute fun name =>
      if name = dimensionsPlaceholder then some (.list columns) else none
  | none => p.sql

/-- A formula ready for the query. -/
structure Outcome where
  preFormulas : List PreFormula
  post : PostFormula
  dimensionFormulas : List PreFormula
  sourceTemplates : List SourceTemplate
  phase : Phase
  used : UsedSlugs
  isMissing : Bool
  dataSources : DataSources
  type : ValueType
  placeholders : NameSet
  overrides : OverrideUses

namespace Outcome

/-- The formula without dimensions; null if its value is missing. -/
def sql (o : Outcome) : Sql.Expr := if o.isMissing then .null else o.post.fill .empty

end Outcome

end SemanticLayer.Formula
