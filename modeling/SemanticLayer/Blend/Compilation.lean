import SemanticLayer.Blend.Answer
import SemanticLayer.Blend.Codec
import SemanticLayer.Override.Mapping
import SemanticLayer.Sql.OutputAlias

/-!
# Compilation of requests

The statement that answers a request in one dialect.  A request can also be a plain list of
taxons, whose data sources follow from the taxons.
-/

namespace SemanticLayer

open Sql (Expr Query SelectItem)

/-- A statement with what it needs to be run and read. -/
structure CompiledRequest where
  query : Query
  dialect : Sql.Dialect
  /-- The slug and the name of each column. -/
  columns : List (String × String)
  /-- The connection to run the statement on, if it reads any table. -/
  physicalSource? : Option String

def CompiledRequest.text (c : CompiledRequest) : String := c.query.text c.dialect

/-- Taxons of any data sources. -/
structure TaxonRequest where
  fields : List String
  filter? : Option FilterClause
  order : List TaxonOrder
  limit? : Option UInt64

/-- Names the columns of an answer by their slugs, as the dialect allows.  One statement cannot
span several connections. -/
def Dataframe.compiled (df : Dataframe) (d : Sql.Dialect) : Result CompiledRequest :=
  if 1 < df.physicalSources.size then .error (.tooManyPhysicalSources df.physicalSources)
  else
    let columns := Sql.OutputAlias.all d df.columns.keys
    let items : List SelectItem := columns.filterMap fun (slug, name) =>
      (df.columns.get? slug).map fun c => (Expr.col c.name).named name
    .ok ⟨(df.query.wrap "husky_result").select items, d, columns, df.physicalSources.toList.head?⟩

namespace Catalog

/-- Compiles a request. -/
def compile (c : Catalog) (o : Options) (r : BlendRequest) : Result CompiledRequest := do
  (← c.answer o r).compiled o.dialect

/-- The request with one part for each data source that the taxons come from. -/
def blendRequest (c : Catalog) (o : Options) (company : String) (physicalSource? : Option String)
    (r : TaxonRequest) : Result BlendRequest := do
  let fields : NameSet := .ofList r.fields
  let used ← (Resolver.ofTaxons c.taxons).resolve fields
  let dataSources : NameSet := .ofList (used.all.values.filterMap (·.dataSource?))
  if dataSources.isEmpty then throw (.invalidRequest .noDataSource)
  let scope : Scope := ⟨company, none, o.visibility, none⟩
  return { BlendRequest.ofParts (dataSources.toList.map (.ofDataSource · scope)) fields.toList with
    filter? := r.filter?
    order := r.order
    limit? := r.limit?
    physicalSources? := physicalSource?.map ([·]) }

/-- Compiles a request for taxons of any data sources. -/
def compileTaxons (c : Catalog) (o : Options) (company : String) (physicalSource? : Option String)
    (r : TaxonRequest) : Result CompiledRequest := do
  c.compile o (← c.blendRequest o company physicalSource? r)

end Catalog

open Decode

def TaxonRequest.ofJson : Decoder TaxonRequest := fun j => do
  let fs ← record ["requested_fields", "filters", "order_by", "limit"] j
  let filter? ← fs.getNullable "filters" FilterClause.ofJson
  let limit? ← fs.getNullable "limit" unsigned
  let order ← fs.getD "order_by" (list TaxonOrder.ofJson) []
  let fields ← present (← fs.get? "requested_fields" (list string))
  return { fields, filter?, order, limit? }

/-- A catalog's parts as they are written down. -/
def Catalog.partsOfJson : Decoder (List Model × List OverrideMapping × TaxonMap) := fun j => do
  let fs ← record ["taxons", "models", "override_mappings"] j
  let models ← fs.getD "models" (list Model.ofJson) []
  let mappings ← fs.getD "override_mappings" (list OverrideMapping.ofJson) []
  return (models, mappings, ← fs.getD "taxons" TaxonMap.ofJson .empty)

/-- Reads a catalog, whose models have to be valid. -/
def Catalog.ofJson (j : Json) : Result Catalog := do
  let (models, mappings, taxons) ← (partsOfJson j).mapError Error.unreadable
  return { taxons, models := ← Model.prepareAll models, mappings }

end SemanticLayer
