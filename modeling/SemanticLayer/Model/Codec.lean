import SemanticLayer.Model.Scope

/-!
# Models and scopes in JSON
-/

namespace SemanticLayer

open Decode

def Relationship.ofJson : Decoder Relationship := oneOf (Relationship.all.map fun r => (r.name, r))

def JoinDirection.ofJson : Decoder JoinDirection :=
  oneOf (JoinDirection.all.map fun d => (d.name, d))

def Sql.JoinKind.ofJson : Decoder Sql.JoinKind :=
  oneOf ([Sql.JoinKind.left, .inner, .right].map fun k => (k.name, k))

def Visibility.ofJson : Decoder Visibility := oneOf (Visibility.all.map fun v => (v.name, v))

def QuantityType.ofJson : Decoder QuantityType :=
  oneOf ([QuantityType.scalar, .array].map fun q => (q.name, q))

def ModelType.ofJson : Decoder ModelType :=
  oneOf ([ModelType.entity, .metric].map fun t => (t.name, t))

def ModelAttribute.ofJson : Decoder ModelAttribute := fun j => do
  let fs ← record ["taxon", "identifier", "tel_transformation", "quantity_type"] j
  let isIdentifier ← fs.getD "identifier" bool false
  let quantity ← fs.getD "quantity_type" QuantityType.ofJson .scalar
  let taxon ← present (← fs.get? "taxon" string)
  let formula ← present (← fs.get? "tel_transformation" string)
  return { taxon, isIdentifier, formula, quantity }

def ModelJoin.ofJson : Decoder ModelJoin := fun j => do
  let fs ← record ["join_type", "relationship", "direction", "to_model", "taxons"] j
  let kind ← present (← fs.get? "join_type" Sql.JoinKind.ofJson)
  let relationship ← present (← fs.get? "relationship" Relationship.ofJson)
  let direction? ← fs.getNullable "direction" JoinDirection.ofJson
  let target ← present (← fs.get? "to_model" string)
  let taxons ← fs.getD "taxons" (list string) []
  return { kind, relationship, direction?, target, taxons }

def Model.ofJson : Decoder Model := fun j => do
  let fs ← record
    ["name", "attributes", "joins", "data_sources", "model_type", "visibility", "company_id",
      "project_id", "fully_qualified_name_parts", "physical_data_source"] j
  let attributes ← fs.getD "attributes" (entries ModelAttribute.ofJson) []
  let company ← present (← fs.get? "company_id" string)
  let dataSources ← fs.getD "data_sources" (list string) []
  let table ← fs.getD "fully_qualified_name_parts" (list string) []
  let joins ← fs.getD "joins" (list ModelJoin.ofJson) []
  let type? ← fs.getNullable "model_type" ModelType.ofJson
  let name ← present (← fs.get? "name" string)
  let physicalSource? ← fs.getNullable "physical_data_source" string
  let project? ← fs.getNullable "project_id" string
  let visibility ← fs.getD "visibility" Visibility.ofJson .hidden
  return { name, attributes := .ofList attributes, joins, dataSources, type?, visibility, company,
           project?, table, physicalSource? }

def Scope.ofJson : Decoder Scope := fun j => do
  let fs ← record ["company_id", "project_id", "model_visibility", "preaggregation_filters"] j
  let company ← present (← fs.get? "company_id" string)
  let visibility ← fs.getD "model_visibility" Visibility.ofJson .available
  let preaggregationFilter? ← fs.getNullable "preaggregation_filters" FilterClause.ofJson
  let project? ← fs.getNullable "project_id" string
  return { company, project?, visibility, preaggregationFilter? }

def Scope.toJson (s : Scope) : Json :=
  .ofFields
    [("company_id", .str s.company), ("project_id", Json.ofOption .str s.project?),
     ("model_visibility", .str s.visibility.name),
     ("preaggregation_filters", Json.ofOption FilterClause.toJson s.preaggregationFilter?)]

end SemanticLayer
