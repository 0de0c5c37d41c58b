import SemanticLayer.Taxonomy.Taxon

/-!
# Taxons in JSON

Readers and writers of taxons and their parts.  A reader applies the rules of the type after all
fields are read.
-/

namespace SemanticLayer

open Decode

def TaxonType.ofJson : Decoder TaxonType :=
  oneOf ([TaxonType.dimension, .metric].map fun t => (t.name, t))

def TaxonType.toJson (t : TaxonType) : Json := .str t.name

def ValidationType.ofJson : Decoder ValidationType := oneOf (ValidationType.all.map fun t => (t.name, t))

def Formula.Phase.ofJson : Decoder Formula.Phase := oneOf (Formula.Phase.all.map fun p => (p.name, p))

def SortOrder.ofJson : Decoder SortOrder := oneOf [("asc", .asc), ("desc", .desc)]

def SortOrder.toJson : SortOrder → Json
  | .asc => .str "asc"
  | .desc => .str "desc"

def SortDimension.ofJson : Decoder SortDimension := fun j => do
  let fs ← record ["taxon", "order_by"] j
  let order? ← fs.getNullable "order_by" SortOrder.ofJson
  let taxon ← fs.get? "taxon" string
  return ⟨← present taxon, order?⟩

/-- An order that is not declared is left out. -/
def SortDimension.toJson (s : SortDimension) : Json :=
  .ofFields (("taxon", .str s.taxon) ::
    match s.order? with
    | some o => [("order_by", o.toJson)]
    | none => [])

def AggregationType.ofJson : Decoder AggregationType :=
  oneOf (AggregationType.all.map fun t => (t.name, t))

/-- Sort dimensions if the object has valid ones, else the fields to count. -/
def AggregationParams.ofJson : Decoder AggregationParams
  | .obj entries => do
    let fs : Fields := entries
    match fs.get? "sort_dimensions" (list SortDimension.ofJson) with
    | .ok (some sort) => return .sortDimensions sort
    | _ =>
      match fs.getD "fields" (list string) [] with
      | .ok names => return .fields names
      | .error _ => throw .malformed
  | _ => throw .malformed

def AggregationParams.toJson : AggregationParams → Json
  | .sortDimensions sort => .ofFields [("sort_dimensions", .arr (sort.map SortDimension.toJson))]
  | .fields names => .ofFields [("fields", .ofStrings names)]

def Aggregation.ofJson : Decoder Aggregation := fun j => do
  let fs ← record ["type", "params"] j
  let params? ← fs.getNullable "params" AggregationParams.ofJson
  let type ← fs.get? "type" AggregationType.ofJson
  checked Error.message (Aggregation.declare (← present type) params?)

/-- Parameters are left out where there are none. -/
def Aggregation.toJson (a : Aggregation) : Json :=
  .ofFields (("type", .str a.type.name) ::
    match a.params? with
    | some p => [("params", p.toJson)]
    | none => [])

def FormulaFacts.ofJson : Decoder FormulaFacts := fun j => do
  let fs ← record
    ["used_data_sources", "required_raw_taxons", "optional_raw_taxons", "used_taxons", "phase",
      "can_compute_comparison", "aggregation_definition"] j
  let aggregation? ← fs.getNullable "aggregation_definition" Aggregation.ofJson
  let canCompare ← fs.getD "can_compute_comparison" bool false
  let optionalRawTaxons ← fs.getD "optional_raw_taxons" (list string) []
  let phase ← fs.getD "phase" Formula.Phase.ofJson .any
  let requiredRawTaxons ← fs.getD "required_raw_taxons" (list string) []
  let usedDataSources ← fs.getD "used_data_sources" (list (nullable string)) []
  let usedTaxons ← fs.getD "used_taxons" (list string) []
  return { usedDataSources, requiredRawTaxons, optionalRawTaxons, usedTaxons, phase, canCompare,
           aggregation? }

def FormulaFacts.toJson (f : FormulaFacts) : Json :=
  .ofFields
    [("used_data_sources", .arr (f.usedDataSources.map (Json.ofOption .str))),
     ("required_raw_taxons", .ofStrings f.requiredRawTaxons),
     ("optional_raw_taxons", .ofStrings f.optionalRawTaxons),
     ("used_taxons", .ofStrings f.usedTaxons),
     ("phase", .str f.phase.name),
     ("can_compute_comparison", .bool f.canCompare),
     ("aggregation_definition", Json.ofOption Aggregation.toJson f.aggregation?)]

def Taxon.ofJson : Decoder Taxon := fun j => do
  let fs ← record
    ["slug", "display_name", "data_source", "taxon_type", "calculation", "validation_type",
      "company_id", "aggregation", "comparison_taxon_slug_origin", "acronym", "tel_metadata"] j
  let acronym? ← fs.getNullable "acronym" string
  let aggregation? ← fs.getNullable "aggregation" Aggregation.ofJson
  let calculation? ← fs.getNullable "calculation" string
  let company ← fs.getD "company_id" string ""
  let comparisonOrigin? ← fs.getNullable "comparison_taxon_slug_origin" string
  let dataSource? ← fs.getNullable "data_source" string
  let displayName? ← fs.getNullable "display_name" string
  let slug? ← fs.get? "slug" string
  let type ← fs.getD "taxon_type" TaxonType.ofJson .dimension
  let facts? ← fs.getNullable "tel_metadata" FormulaFacts.ofJson
  let validation? ← fs.getNullable "validation_type" ValidationType.ofJson
  let slug ← present slug?
  let definition ← checked (fun fault => (Error.invalidTaxon slug fault).message)
    (TaxonDefinition.of calculation? aggregation?)
  return { slug, displayName := displayName?.getD slug, dataSource?, type, definition,
           validation := validation?.getD (.defaultFor type), company, comparisonOrigin?, acronym?,
           facts? }

def Taxon.toJson (t : Taxon) : Json :=
  .ofFields
    [("slug", .str t.slug),
     ("display_name", .str t.displayName),
     ("data_source", Json.ofOption .str t.dataSource?),
     ("taxon_type", t.type.toJson),
     ("calculation", Json.ofOption .str t.calculation?),
     ("validation_type", .str t.validation.name),
     ("company_id", .str t.company),
     ("aggregation", Json.ofOption Aggregation.toJson t.aggregation?),
     ("comparison_taxon_slug_origin", Json.ofOption .str t.comparisonOrigin?),
     ("acronym", Json.ofOption .str t.acronym?),
     ("tel_metadata", Json.ofOption FormulaFacts.toJson t.facts?)]

def TaxonMap.ofJson : Decoder TaxonMap := fun j => (list Taxon.ofJson j).map Taxon.mapOf

end SemanticLayer
