import SemanticLayer.Collections.SortedMap
import SemanticLayer.Model.Kind
import SemanticLayer.Slug

/-!
# Dataframes

A query with what is known of it: which of its columns holds which taxon, and which models and
connections it reads.
-/

namespace SemanticLayer

structure DataframeColumn where
  name : String
  taxon : String
  quantity : QuantityType
  deriving DecidableEq

structure Dataframe where
  query : Sql.Query
  /-- The column of each taxon. -/
  columns : SortedMap String DataframeColumn
  models : NameSet
  physicalSources : NameSet

namespace Dataframe

/-- The same data in another query. -/
def derive (df : Dataframe) (query : Sql.Query) (columns : SortedMap String DataframeColumn) :
    Dataframe :=
  { df with query, columns }

/-- The dataframe's query as a table. -/
def table (df : Dataframe) (name : String) : Sql.TableRef := .subquery df.query name

end Dataframe

/-- A column under its own name. -/
def Sql.SelectItem.ofColumn (name : String) : Sql.SelectItem := (Sql.Expr.col name).named name

/-- A query for some columns, listed by their names. -/
def Sql.Query.ofItems (items : List Sql.SelectItem) : Sql.Query :=
  Sql.Query.empty.select (Sql.SelectItem.sorted items)

/-- Takes a limited range of rows. -/
def Sql.Query.page (q : Sql.Query) (limit? offset? : Option UInt64) : Sql.Query :=
  { q with limit?, offset? }

end SemanticLayer
