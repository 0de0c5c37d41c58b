import SemanticLayer.Blend.Request
import SemanticLayer.Model.Codec
import SemanticLayer.Taxonomy.Codec

/-!
# Requests in JSON
-/

namespace SemanticLayer

open Decode

def TaxonOrder.ofJson : Decoder TaxonOrder := fun j => do
  let fs ← record ["taxon", "type"] j
  let taxon ← present (← fs.get? "taxon" string)
  let order ← present (← fs.get? "type" SortOrder.ofJson)
  return { taxon, order }

def TaxonOrder.toJson (o : TaxonOrder) : Json :=
  .ofFields [("taxon", .str o.taxon), ("type", o.order.toJson)]

/-- The data sources of a part, and its model. -/
def SourceRequest.targetOfJson : Decoder (List String × Option String) := fun j => do
  let fs ← record ["data_sources", "model_name"] j
  let dataSources ← fs.getD "data_sources" (list string) []
  return (dataSources, ← fs.getNullable "model_name" string)

def SourceRequest.ofJson : Decoder SourceRequest := fun j => do
  let fs ← record
    ["taxons", "preaggregation_filters", "order_by", "limit", "offset", "properties", "scope"] j
  let limit? ← fs.getNullable "limit" unsigned
  let offset? ← fs.getNullable "offset" unsigned
  let order ← fs.getD "order_by" (list TaxonOrder.ofJson) []
  let preaggregationFilter? ← fs.getNullable "preaggregation_filters" FilterClause.ofJson
  let (dataSources, modelName?) ← present (← fs.get? "properties" SourceRequest.targetOfJson)
  let scope ← present (← fs.get? "scope" Scope.ofJson)
  let taxons ← fs.getD "taxons" (list string) []
  return { taxons, preaggregationFilter?, order, limit?, offset?, dataSources, modelName?, scope }

def countJson (n : UInt64) : Json := .int n.toNat

def SourceRequest.toJson (p : SourceRequest) : Json :=
  .ofFields
    [("taxons", .ofStrings p.taxons),
     ("preaggregation_filters", Json.ofOption FilterClause.toJson p.preaggregationFilter?),
     ("order_by", .arr (p.order.map TaxonOrder.toJson)),
     ("limit", Json.ofOption countJson p.limit?), ("offset", Json.ofOption countJson p.offset?),
     ("properties", .ofFields
       [("data_sources", .ofStrings p.dataSources),
        ("model_name", Json.ofOption .str p.modelName?)]),
     ("scope", p.scope.toJson)]

/-- The company is the only scope of a comparison. -/
def ComparisonRequest.ofJson : Decoder ComparisonRequest := fun j => do
  let fs ← record ["taxons", "scope"] j
  fs.getD "scope" (oneOf [("company", ())]) ()
  return ⟨← fs.getNullable "taxons" (list string)⟩

def ComparisonRequest.toJson (c : ComparisonRequest) : Json :=
  .ofFields [("taxons", Json.ofOption Json.ofStrings c.taxons?), ("scope", .str "company")]

def BlendRequest.ofJson : Decoder BlendRequest := fun j => do
  let fs ← record
    ["data_subrequests", "taxons", "order_by", "limit", "offset", "comparison", "grouping_sets",
      "fill_date_gaps", "filters", "physical_data_sources"] j
  let comparison? ← fs.getNullable "comparison" ComparisonRequest.ofJson
  let parts ← present (← fs.get? "data_subrequests" (list SourceRequest.ofJson))
  let fillsDateGaps ← fs.getD "fill_date_gaps" bool false
  let filter? ← fs.getNullable "filters" FilterClause.ofJson
  let groupingSets? ← fs.getNullable "grouping_sets" (list (list string))
  let limit? ← fs.getNullable "limit" unsigned
  let offset? ← fs.getNullable "offset" unsigned
  let order ← fs.getD "order_by" (list TaxonOrder.ofJson) []
  let physicalSources? ← fs.getNullable "physical_data_sources" (list string)
  let taxons ← fs.getD "taxons" (list string) []
  return { parts, taxons, order, limit?, offset?, comparison?, groupingSets?, fillsDateGaps, filter?,
           physicalSources? }

def BlendRequest.toJson (r : BlendRequest) : Json :=
  .ofFields
    [("data_subrequests", .arr (r.parts.map SourceRequest.toJson)), ("taxons", .ofStrings r.taxons),
     ("order_by", .arr (r.order.map TaxonOrder.toJson)),
     ("limit", Json.ofOption countJson r.limit?), ("offset", Json.ofOption countJson r.offset?),
     ("comparison", Json.ofOption ComparisonRequest.toJson r.comparison?),
     ("grouping_sets",
       Json.ofOption (fun sets => .arr (sets.map Json.ofStrings)) r.groupingSets?),
     ("fill_date_gaps", .bool r.fillsDateGaps),
     ("filters", Json.ofOption FilterClause.toJson r.filter?),
     ("physical_data_sources", Json.ofOption Json.ofStrings r.physicalSources?)]

end SemanticLayer
