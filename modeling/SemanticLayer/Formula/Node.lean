import SemanticLayer.Formula.Constant
import SemanticLayer.Formula.Function
import SemanticLayer.Taxonomy.Taxon

/-!
# Formula nodes

A formula whose taxons and functions are known.  A computed taxon holds the nodes of its own
calculation, and a transition moves a value into a later phase.
-/

namespace SemanticLayer.Formula

/-- What a formula is read for: its setting, the taxons it can name and the request it serves. -/
structure Context where
  taxons : TaxonMap
  /-- The data sources that may be used; none allows all. -/
  dataSources? : Option NameSet
  /-- Whether the value over all data of the company is asked for. -/
  isBenchmark : Bool
  /-- The type of the taxon that the formula defines. -/
  type : TaxonType
  /-- The slug of the taxon that the formula defines. -/
  slug : String
  /-- Whether the formula is used inside one subrequest only. -/
  subrequestOnly : Bool
  /-- The table of the model whose attribute the formula defines. -/
  modelTable? : Option String

namespace Context

def ofTaxons (taxons : TaxonMap) : Context :=
  { taxons, dataSources? := none, isBenchmark := false, type := .metric, slug := "",
    subrequestOnly := false, modelTable? := none }

def setting (ctx : Context) : Setting := if ctx.modelTable?.isSome then .model else .taxon

def allows (ctx : Context) (dataSource : String) : Bool :=
  ctx.dataSources?.all fun allowed => allowed.contains dataSource

/-- Whether the request reads exactly one data source. -/
def isSingleSource (ctx : Context) : Bool := ctx.dataSources?.any fun allowed => allowed.size = 1

end Context

/-- A taxon as a formula uses it. -/
structure TaxonUse where
  slug : String
  dataSource? : Option String
  taxon? : Option Taxon
  isOptional : Bool
  deriving DecidableEq

namespace TaxonUse

def isMetric (u : TaxonUse) : Bool := u.taxon?.any fun t => t.type = .metric

def isAllowed (u : TaxonUse) (ctx : Context) : Bool := u.dataSource?.all ctx.allows

end TaxonUse

/-- The phase that a transition leads to. -/
inductive Target where
  | dimension
  | aggregation
  | postAggregation
  deriving DecidableEq

def Target.phase : Target → Phase
  | .dimension => .dimension
  | .aggregation => .metricPre
  | .postAggregation => .metricPost

/-- Whether a transition can start from a phase, other than its own. -/
def Target.accepts (t : Target) (p : Phase) : Bool :=
  match t with
  | .dimension => p = .dimensionDataSource || p = .any
  | .aggregation => p = .dimension || p = .any
  | .postAggregation => p = .metricPre || p = .any

inductive Node where
  | integer (n : Int64) (place : Location)
  | decimal (x : Double) (place : Location)
  | text (s : String) (place : Location)
  | bool (b : Bool) (place : Location)
  /-- A column of the model's table. -/
  | column (name : String) (place : Location)
  | paren (inner : Node) (place : Location)
  /-- A taxon that is not computed, or not known. -/
  | taxon (use : TaxonUse) (place : Location)
  /-- Another attribute of the same model. -/
  | attribute (use : TaxonUse) (sql : Sql.Expr) (place : Location)
  | computed (use : TaxonUse) (calculation : Node) (place : Location)
  | binary (op : Operator) (left right : Node) (place : Location)
  | not (operand : Node) (place : Location)
  | isNull (operand : Node) (negated : Bool) (place : Location)
  /-- A call; `single` holds where the request reads one data source only. -/
  | call (f : Function) (args : List Node) (single : Bool) (place : Location)
  | transition (target : Target) (value : Node) (aggregation : Aggregation)
      (label? : Option String) (place : Location)
  | root (inner : Node) (place : Location)
  deriving Inhabited

def Constant.toNode (c : Constant) (place : Location) : Node :=
  match c with
  | .int n => .integer n place
  | .float x => .decimal x place
  | .text s => .text s place
  | .bool b => .bool b place

namespace Node

def place : Node → Location
  | .integer _ p => p
  | .decimal _ p => p
  | .text _ p => p
  | .bool _ p => p
  | .column _ p => p
  | .paren _ p => p
  | .taxon _ p => p
  | .attribute _ _ p => p
  | .computed _ _ p => p
  | .binary _ _ _ p => p
  | .not _ p => p
  | .isNull _ _ p => p
  | .call _ _ _ p => p
  | .transition _ _ _ _ p => p
  | .root _ p => p

/-- The boolean that a node is, if it is a plain one. -/
def asBool? : Node → Option Bool
  | .bool b _ => some b
  | _ => none

def toDimension (n : Node) : Node := .transition .dimension n .notSet none n.place

def toAggregation (n : Node) (aggregation? : Option Aggregation) (label? : Option String) : Node :=
  .transition .aggregation n (aggregation?.getD .notSet) label? n.place

def toPostAggregation (n : Node) (aggregation? : Option Aggregation) (label? : Option String) :
    Node :=
  .transition .postAggregation n (aggregation?.getD .sum) label? n.place

def useText (u : TaxonUse) : String := if u.isOptional then "?" ++ u.slug else u.slug

mutual

/-- The node as text, transitions included. -/
def description : Node → String
  | .integer n _ => toString n.toInt
  | .decimal x _ => Layout.formula.write x
  | .text s _ => "'" ++ s ++ "'"
  | .bool b _ => if b then "TRUE" else "FALSE"
  | .column name _ => "\"" ++ name ++ "\""
  | .paren n _ => "(" ++ n.description ++ ")"
  | .taxon u _ => useText u
  | .attribute u _ _ => useText u
  | .computed u _ _ => useText u
  | .binary op l r _ => l.description ++ " " ++ op.symbol ++ " " ++ r.description
  | .not n _ => "NOT " ++ n.description
  | .isNull n negated _ => n.description ++ " IS " ++ (if negated then "NOT NULL" else "NULL")
  | .call f args _ _ => f.name ++ "(" ++ ", ".intercalate (descriptions args) ++ ")"
  | .transition t n _ _ _ => n.description ++ " >>> " ++ t.phase.name
  | .root n _ => "Root(" ++ n.description ++ ")"

def descriptions : List Node → List String
  | [] => []
  | n :: ns => n.description :: descriptions ns

end

mutual

/-- Whether a taxon stands anywhere in the node. -/
def containsTaxon : Node → Bool
  | .integer .. => false
  | .decimal .. => false
  | .text .. => false
  | .bool .. => false
  | .column .. => false
  | .taxon .. => true
  | .attribute .. => true
  | .computed .. => true
  | .paren n _ => n.containsTaxon
  | .binary _ l r _ => l.containsTaxon || r.containsTaxon
  | .not n _ => n.containsTaxon
  | .isNull n _ _ => n.containsTaxon
  | .call _ args _ _ => anyContainsTaxon args
  | .transition _ n _ _ _ => n.containsTaxon
  | .root n _ => n.containsTaxon

def anyContainsTaxon : List Node → Bool
  | [] => false
  | n :: ns => n.containsTaxon || anyContainsTaxon ns

end

mutual

/-- Whether the node is a ratio, or a product, by a taxon: its value over all data of the company
can be held against it. -/
def canCompare : Node → Bool
  | .integer .. => false
  | .decimal .. => false
  | .text .. => false
  | .bool .. => false
  | .column .. => false
  | .taxon .. => false
  | .attribute .. => false
  | .computed _ n _ => n.canCompare
  | .paren n _ => n.canCompare
  | .binary op l r _ =>
    l.canCompare || (if op.isStrict then r.containsTaxon else r.canCompare)
  | .not n _ => n.canCompare
  | .isNull n _ _ => n.canCompare
  | .call _ args _ _ => anyCanCompare args
  | .transition _ n _ _ _ => n.canCompare
  | .root n _ => n.canCompare

def anyCanCompare : List Node → Bool
  | [] => false
  | n :: ns => n.canCompare || anyCanCompare ns

end

/-- The constant that a node is known to be. -/
def constant? : Node → Option Constant
  | .integer n _ => some (.int n)
  | .decimal x _ => some (.float x)
  | .text s _ => some (.text s)
  | .bool b _ => some (.bool b)
  | .column .. => none
  | .paren n _ => n.constant?
  | .taxon .. => none
  | .attribute .. => none
  | .computed _ n _ => n.constant?
  | .binary op l r _ => do Constant.operate? op (← l.constant?) (← r.constant?)
  | .not n _ => n.constant?.map fun c => .bool !c.holds
  | .isNull .. => none
  | .call .. => none
  | .transition _ n _ _ _ => n.constant?
  | .root n _ => n.constant?

end Node

end SemanticLayer.Formula
