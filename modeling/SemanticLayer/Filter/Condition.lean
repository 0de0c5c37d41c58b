import SemanticLayer.Error
import SemanticLayer.Filter.Clause
import SemanticLayer.Model.Kind
import SemanticLayer.Sql.Pattern

/-!
# Conditions of filters

A filter becomes one boolean expression, given how each of its taxons is read.
-/

namespace SemanticLayer

open Sql (Expr)

/-- How a query reads a taxon. -/
structure TaxonColumn where
  sql : Expr
  /-- The model that the taxon is read from, if it comes straight from one. -/
  model? : Option String
  quantity : QuantityType

def TaxonColumn.ofSql (sql : Expr) : TaxonColumn := ⟨sql, none, .scalar⟩

/-- How the taxons of a query are read, by slug. -/
abbrev TaxonColumns := SortedMap String TaxonColumn

def FilterValue.sql : FilterValue → Expr
  | .bool b => .bool b
  | .int n => .int n
  | .float x => .float x
  | .text s => .string s

namespace FilterOperator

/-- A taxon held against null. -/
def nullCondition (o : FilterOperator) (left : Expr) : Result Expr :=
  match o with
  | .eq => .ok (.isNull left false)
  | .ne => .ok (.isNull left true)
  | o => .error (.invalidRequest (.filterOperator o.name))

/-- A taxon held against a pattern, as text. -/
def likeCondition (left pattern : Expr) (negated ignoreCase : Bool) : Expr :=
  .like (.cast left .text) pattern Sql.Pattern.escapeChar negated ignoreCase

/-- A taxon held against a value. -/
def scalarCondition (o : FilterOperator) (left right : Expr) : Expr :=
  match o with
  | .eq => left.eq right
  | .ne => left.ne right
  | .lt => .binary left .lt right
  | .le => .binary left .le right
  | .gt => .binary left .gt right
  | .ge => .binary left .ge right
  | .like => likeCondition left right false false
  | .notLike => likeCondition left right true false
  | .likeAnyCase => likeCondition left right false true
  | .notLikeAnyCase => likeCondition left right true true

/-- A taxon held against a value or null; an array equals a value it contains. -/
def condition (o : FilterOperator) (left : TaxonColumn) (right? : Option Expr) : Result Expr :=
  match right? with
  | none => o.nullCondition left.sql
  | some right =>
    if o = .eq && left.quantity = .array then
      .ok (.func "array_contains" [.func "to_variant" [right], left.sql])
    else .ok (o.scalarCondition left.sql right)

end FilterOperator

namespace FilterClause

/-- How a taxon of a filter is read. -/
def columnOf (columns : TaxonColumns) (taxon : String) : Result TaxonColumn :=
  match columns.get? taxon with
  | some c => .ok c
  | none => .error (.invalidRequest (.filterTaxonNotAvailable taxon))

/-- Whether a taxon is in a list; an array is if they overlap. -/
def listCondition (c : TaxonColumn) (negated : Bool) (values : List Expr) : Expr :=
  match c.quantity with
  | .scalar => .inList c.sql values negated
  | .array =>
    let overlap := Expr.func "arrays_overlap" [.func "array_construct" values, c.sql]
    if negated then overlap.not else overlap

mutual

/-- The condition of a filter. -/
def condition (columns : TaxonColumns) : FilterClause → Result Expr
  | .group any cs negate => do
    match ← conditions columns cs with
    | [] => throw (.invalidRequest .emptyFilterGroup)
    | e :: es =>
      let grouped := Expr.paren (es.foldl (if any then Expr.or else Expr.and) e)
      return if negate then grouped.not else grouped
  | .value taxon o value? => do
    o.condition (← columnOf columns taxon) (value?.map FilterValue.sql)
  | .taxons taxon right o => do
    let left ← columnOf columns taxon
    o.condition left (some (← columnOf columns right).sql)
  | .among taxon negated values =>
    if values.isEmpty then .error (.invalidRequest (.emptyFilterArray taxon))
    else (columnOf columns taxon).map fun c => listCondition c negated (values.map FilterValue.sql)

def conditions (columns : TaxonColumns) : List FilterClause → Result (List Expr)
  | [] => return []
  | c :: cs => return (← c.condition columns) :: (← conditions columns cs)

end

end FilterClause

end SemanticLayer
