import SemanticLayer.Model.Scope
import SemanticLayer.Taxonomy.Aggregation

/-!
# Requests

A request asks for taxons from one or more data sources, each through a part of its own, and
blends the answers into one.
-/

namespace SemanticLayer

/-- A taxon by which rows are ordered. -/
structure TaxonOrder where
  taxon : String
  order : SortOrder
  deriving DecidableEq

/-- The part of a request that one data source answers. -/
structure SourceRequest where
  taxons : List String
  preaggregationFilter? : Option FilterClause
  order : List TaxonOrder
  limit? : Option UInt64
  offset? : Option UInt64
  /-- The data source; exactly one in a valid request. -/
  dataSources : List String
  /-- Reads from this model only. -/
  modelName? : Option String
  scope : Scope

/-- A comparison with the same metrics over all data of the company. -/
structure ComparisonRequest where
  /-- The dimensions on which the values are matched. -/
  taxons? : Option (List String)
  deriving DecidableEq

structure BlendRequest where
  parts : List SourceRequest
  /-- Taxons asked of all parts that can answer. -/
  taxons : List String
  order : List TaxonOrder
  limit? : Option UInt64
  offset? : Option UInt64
  comparison? : Option ComparisonRequest
  groupingSets? : Option (List (List String))
  fillsDateGaps : Bool
  /-- Holds for the rows after aggregation. -/
  filter? : Option FilterClause
  /-- The connections that the tables may be in; none allows all. -/
  physicalSources? : Option (List String)

namespace SourceRequest

/-- A part that asks for nothing yet. -/
def ofDataSource (dataSource : String) (scope : Scope) : SourceRequest :=
  ⟨[], none, [], none, none, [dataSource], none, scope⟩

def dataSource (p : SourceRequest) : Result String :=
  match p.dataSources with
  | [dataSource] => .ok dataSource
  | dataSources => .error (.multipleDataSources (.ofList dataSources))

def addTaxon (p : SourceRequest) (slug : String) : SourceRequest :=
  { p with taxons := p.taxons ++ [slug] }

end SourceRequest

namespace BlendRequest

/-- A request for taxons of some parts. -/
def ofParts (parts : List SourceRequest) (taxons : List String) : BlendRequest :=
  { parts, taxons, order := [], limit? := none, offset? := none, comparison? := none,
    groupingSets? := none, fillsDateGaps := false, filter? := none, physicalSources? := none }

def validate (r : BlendRequest) : Result Unit :=
  if r.parts.isEmpty then .error (.invalidRequest .noSubrequest)
  else r.parts.forM fun p => p.dataSource.map fun _ => ()

/-- The taxons of all grouping sets. -/
def groupingTaxons (r : BlendRequest) : NameSet := .ofList (r.groupingSets?.getD []).flatten

/-- The dimensions of the comparison. -/
def comparisonTaxons (r : BlendRequest) : List String :=
  (r.comparison?.bind (·.taxons?)).getD []

/-- Moves the orders of the parts to the request. -/
def liftOrders (r : BlendRequest) : BlendRequest :=
  { r with
    order := r.order ++ r.parts.flatMap (·.order)
    parts := r.parts.map fun p => { p with order := [] } }

/-- Asks for a taxon of a data source in the first part of that source. -/
def addToSource (slug dataSource : String) : List SourceRequest → Option (List SourceRequest)
  | [] => none
  | p :: ps =>
    if p.dataSources.head? = some dataSource then some (p.addTaxon slug :: ps)
    else (addToSource slug dataSource ps).map (p :: ·)

/-- Asks for a taxon of the whole request: formulas and taxons of no data source in every part. -/
def addToParts (parts : List SourceRequest) (slug : String) : Result (List SourceRequest) :=
  match if Slug.isFormula slug then none else Slug.dataSource? slug with
  | none => .ok (parts.map fun p => p.addTaxon slug)
  | some dataSource =>
    match addToSource slug dataSource parts with
    | some parts => .ok parts
    | none => .error (.invalidRequest (.noSubrequestFor slug))

/-- The request with the taxons of its grouping sets asked for, each part with the taxons that it
has to answer, and all orders at the top. -/
def distributed (r : BlendRequest) : Result BlendRequest := do
  let r := r.liftOrders
  let taxons := r.taxons ++ r.groupingTaxons.toList
  let parts ← taxons.foldlM addToParts r.parts
  if r.groupingSets?.isSome && r.fillsDateGaps then throw (.invalidRequest .filledGroupingSets)
  return { r with taxons, parts }

end BlendRequest

end SemanticLayer
