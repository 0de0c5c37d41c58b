import SemanticLayer.Formula.Fault
import SemanticLayer.Json.Decode
import SemanticLayer.Slug

/-!
# Errors

Every way in which a request can fail, with what is needed to say so.  `Error.message` holds the
wording.
-/

namespace SemanticLayer

/-- Rules of a request that it breaks. -/
inductive RequestFault where
  | missingAggregationParams (type : String)
  | unsupportedAggregationParams (type : String)
  | blankCountedField
  | unknownFormula (slug : String)
  | shortModelName (name : String)
  | modelDataSources (name : String)
  | attributeNotFound (taxon model : String)
  | emptyFilterGroup
  | emptyFilterArray (taxon : String)
  | filterTaxonNotAvailable (taxon : String)
  | filterOperator (name : String)
  | noDataSource
  | orderNotSelected (taxon : String)
  | filledGroupingSets
  | noSubrequestFor (slug : String)
  | noSubrequest
  | metricGroupingSets (slugs : List String)
  | metricPreaggregationFilter (slug : String)
  deriving DecidableEq

def RequestFault.message : RequestFault → String
  | .missingAggregationParams type => "Missing \"params\" field for aggregation " ++ type
  | .unsupportedAggregationParams type => "Unsupported params for aggregation type - " ++ type
  | .blankCountedField => "count_distinct fields must be non-empty strings"
  | .unknownFormula slug => "Unknown TEL expression " ++ slug
  | .shortModelName name => "Model name \"" ++ name ++ "\" must have at least 3 characters"
  | .modelDataSources name => "Model \"" ++ name ++ "\" must have exactly one data source"
  | .attributeNotFound taxon model =>
    "Attribute with taxon " ++ taxon ++ " not found in model " ++ model
  | .emptyFilterGroup => "Group filter clause must contain at least one clause"
  | .emptyFilterArray taxon =>
    "Array filter on taxon \"" ++ taxon ++ "\" must contain at least one value"
  | .filterTaxonNotAvailable taxon => "Taxon \"" ++ taxon ++ "\" used in filter is not available"
  | .filterOperator name => "Unknown operator " ++ name ++ " for the given value"
  | .noDataSource => "Requested fields do not use any data source."
  | .orderNotSelected taxon =>
    "Taxon \"" ++ taxon ++ "\" used in order_by clause must be also selected."
  | .filledGroupingSets => "fill_date_gaps is not supported when used with grouping sets."
  | .noSubrequestFor slug =>
    "Request does not have proper data source for taxon " ++ slug ++ "."
  | .noSubrequest => "At least one data subrequest is required."
  | .metricGroupingSets slugs =>
    "Grouping sets cannot contain metric taxons: " ++ ", ".intercalate slugs
  | .metricPreaggregationFilter slug =>
    "Metric taxons are not allowed in preaggregation filters. Remove filter for taxon " ++ slug

/-- Why a comparison cannot be made. -/
inductive ComparisonFault where
  | missingTaxons
  | unsupportedAggregation (taxon : String)
  deriving DecidableEq

def ComparisonFault.message : ComparisonFault → String
  | .missingTaxons => "Comparison taxons are required"
  | .unsupportedAggregation taxon => "Unsupported aggregation type for taxon " ++ taxon

/-- Why a taxon's definition is refused. -/
inductive TaxonFault where
  | computedWithAggregation
  | rawWithoutAggregation
  deriving DecidableEq

def TaxonFault.message : TaxonFault → String
  | .computedWithAggregation => "Computed taxons cannot have aggregation definition"
  | .rawWithoutAggregation => "Raw taxons require aggregation definition"

/-- Why an override mapping is refused. -/
inductive MappingFault where
  | tooManyPairs (count max : Nat)
  | repeatedValues (values : List String)
  deriving DecidableEq

def MappingFault.message : MappingFault → String
  | .tooManyPairs count max =>
    "There is " ++ toString count ++ " mappings, but only " ++ toString max ++
      " mappings are supported."
  | .repeatedValues values =>
    "Following original values are used more than once - " ++ ", ".intercalate values

/-- Breaches of the library's own rules, which no request should reach. -/
inductive Defect where
  | noTransition (target source : String)
  | ambiguousDataSource (label : String)
  | noArguments (function : String)
  | noJoin (source target : String)
  | taxonNotLoaded (slug : String)
  | blendedTaxonNotLoaded (slug : String)
  | comparisonTaxonNotLoaded (slug : String)
  | filterTaxonNotLoaded (slug : String)
  | taxonNotComputed (slug : String)
  | noModelForTaxon (slug : String)
  | noAccessor (slug : String)
  | noSubrequests
  | nothingToBlend
  | noFilterTemplate (slug dataSource : String)
  | noCalculation (slug : String)
  | mappingNotLoaded (slug : String)
  deriving DecidableEq

def Defect.message : Defect → String
  | .noTransition target source => "Cannot move to " ++ target ++ " phase from " ++ source
  | .ambiguousDataSource label =>
    "Expected exactly one data source for dimension formula " ++ label
  | .noArguments function => "Function " ++ function ++ " evaluated without arguments"
  | .noJoin source target => "No join from model " ++ source ++ " to model " ++ target
  | .taxonNotLoaded slug => "Taxon \"" ++ slug ++ "\" was not loaded"
  | .blendedTaxonNotLoaded slug => "Blended taxon \"" ++ slug ++ "\" was not loaded"
  | .comparisonTaxonNotLoaded slug => "Comparison taxon " ++ slug ++ " was not loaded"
  | .filterTaxonNotLoaded slug => "Filter taxon " ++ slug ++ " was not loaded"
  | .taxonNotComputed slug => "Taxon \"" ++ slug ++ "\" was not computed"
  | .noModelForTaxon slug => "No model selected for taxon \"" ++ slug ++ "\""
  | .noAccessor slug => "No accessor for taxon \"" ++ slug ++ "\""
  | .noSubrequests => "Request has no subrequests"
  | .nothingToBlend => "Nothing to blend"
  | .noFilterTemplate slug dataSource =>
    "Filter taxon " ++ slug ++ " has no template in data source " ++ dataSource
  | .noCalculation slug => "Taxon " ++ slug ++ " has no calculation"
  | .mappingNotLoaded slug => "Override mapping \"" ++ slug ++ "\" was not loaded"

inductive Error where
  /-- A symbol at which a formula can no longer be read. -/
  | unexpectedSymbol (symbol : String) (location : Formula.Location)
  | invalidFormula (faults : List Formula.LocatedFault)
  | referenceDepth (limit : Nat)
  | cyclicReference (slug : String)
  | taxonsNotFound (slugs : NameSet)
  | invalidTaxon (slug : String) (fault : TaxonFault)
  /-- A taxon whose calculation fails when a request uses it. -/
  | failedCalculation (slug : String) (cause : Error)
  | impossibleCombination (slugs : NameSet) (dataSource : String)
  | missingJoinTaxons (source target : String)
  | duplicateModel (name dataSource : String)
  | multipleDataSources (dataSources : NameSet)
  | modelNotFound (dataSources : NameSet)
  | invalidComparison (fault : ComparisonFault)
  | tooManyMappings (count max : Nat)
  | invalidMapping (slug : String) (fault : MappingFault)
  | mappingsNotFound (slugs : NameSet)
  | unsupportedDialect (name : String)
  | tooManyPhysicalSources (dataSources : NameSet)
  | invalidRequest (fault : RequestFault)
  | unreadable (e : DecodeError)
  | defect (d : Defect)

namespace Error

def listed (names : NameSet) : String := ", ".intercalate names.toList

def message : Error → String
  | .unexpectedSymbol symbol location =>
    location.describe ("Unexpected symbol \"" ++ symbol ++ "\"")
  | .invalidFormula faults => "\n".intercalate (faults.map Formula.LocatedFault.message)
  | .referenceDepth limit =>
    "Reached maximum depth of taxon references (" ++ toString limit ++ ")."
  | .cyclicReference slug => "Cyclic reference detected on taxon \"" ++ slug ++ "\""
  | .taxonsNotFound slugs => "Taxons not found: " ++ listed slugs
  | .invalidTaxon slug fault => "Invalid taxon \"" ++ slug ++ "\": " ++ fault.message
  | .failedCalculation slug cause => "Invalid taxon \"" ++ slug ++ "\": " ++ cause.message
  | .impossibleCombination slugs dataSource =>
    "Impossible taxon combination in data source \"" ++ dataSource ++ "\": " ++ listed slugs
  | .missingJoinTaxons source target =>
    "Join from model \"" ++ source ++ "\" to model \"" ++ target ++ "\" has no join taxons"
  | .duplicateModel name dataSource =>
    "Model \"" ++ name ++ "\" is defined more than once in data source \"" ++ dataSource ++ "\""
  | .multipleDataSources sources =>
    "Cannot build a model graph over multiple data sources: " ++ listed sources
  | .modelNotFound sources => "No model found for data sources: " ++ listed sources
  | .invalidComparison fault => "Invalid comparison request: " ++ fault.message
  | .tooManyMappings count max =>
    "Too many override mappings requested (" ++ toString count ++ "), maximum is " ++ toString max
  | .invalidMapping slug fault =>
    "Invalid override mapping \"" ++ slug ++ "\": " ++ fault.message
  | .mappingsNotFound slugs => "Override mappings not found: " ++ listed slugs
  | .unsupportedDialect name => "You are trying to use unsupported dialect - \"" ++ name ++ "\""
  | .tooManyPhysicalSources sources =>
    "Request spans more than one physical data source: " ++ listed sources
  | .invalidRequest fault => "Invalid request: " ++ fault.message
  | .unreadable .malformed => "JSON error: the value does not have the expected form"
  | .unreadable (.rejected reason) => "JSON error: " ++ reason
  | .defect d => "Internal error: " ++ d.message

end Error

abbrev Result (α : Type) := Except Error α

end SemanticLayer
