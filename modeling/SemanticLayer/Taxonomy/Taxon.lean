import SemanticLayer.Collections.SortedMap
import SemanticLayer.Taxonomy.Aggregation

/-!
# Taxons

A taxon is a named field of the semantic layer.  It is raw, read from the tables of models and
aggregated, or computed by a formula over other taxons.
-/

namespace SemanticLayer

/-- What is derived from a taxon's definition. -/
structure FormulaFacts where
  usedDataSources : List (Option String)
  requiredRawTaxons : List String
  optionalRawTaxons : List String
  usedTaxons : List String
  phase : Formula.Phase
  /-- Whether the calculation is a ratio, which can be held against that of the whole company. -/
  canCompare : Bool
  aggregation? : Option Aggregation
  deriving DecidableEq

def FormulaFacts.none : FormulaFacts := ⟨[], [], [], [], .any, false, Option.none⟩

inductive TaxonDefinition where
  | raw (aggregation : Aggregation)
  | computed (calculation : String)
  deriving DecidableEq

structure Taxon where
  slug : String
  displayName : String
  dataSource? : Option String
  type : TaxonType
  definition : TaxonDefinition
  validation : ValidationType
  company : String
  /-- The slug of the taxon whose value over all data of the company this one is. -/
  comparisonOrigin? : Option String
  acronym? : Option String
  facts? : Option FormulaFacts
  deriving DecidableEq

/-- Taxons by slug. -/
abbrev TaxonMap := SortedMap String Taxon

namespace TaxonDefinition

/-- Exactly one of calculation and aggregation defines a taxon. -/
def of (calculation? : Option String) (aggregation? : Option Aggregation) :
    Except TaxonFault TaxonDefinition :=
  match calculation?, aggregation? with
  | some c, none => .ok (.computed c)
  | none, some a => .ok (.raw a)
  | some _, some _ => .error .computedWithAggregation
  | none, none => .error .rawWithoutAggregation

end TaxonDefinition

namespace Taxon

def calculation? (t : Taxon) : Option String :=
  match t.definition with
  | .computed c => some c
  | .raw _ => none

def aggregation? (t : Taxon) : Option Aggregation :=
  match t.definition with
  | .computed _ => none
  | .raw a => some a

def isComputed (t : Taxon) : Bool := t.calculation?.isSome

/-- A taxon for a formula that a request holds in place of a slug. -/
def ofFormula (slug calculation : String) (type : TaxonType) (company : String) : Taxon :=
  { slug, displayName := slug, dataSource? := none, type, definition := .computed calculation,
    validation := .defaultFor type, company, comparisonOrigin? := none, acronym? := none,
    facts? := none }

def isComparison (t : Taxon) : Bool := t.comparisonOrigin?.isSome

/-- The aggregation from the derived facts, else the declared one. -/
def knownAggregation? (t : Taxon) : Option Aggregation :=
  (t.facts?.bind (·.aggregation?)).or t.aggregation?

/-- Whether the aggregation makes the taxon a dimension. -/
def isDimension (t : Taxon) : Bool := t.knownAggregation?.any fun a => a.type.isDimension

def isMetric (t : Taxon) : Bool := !t.isDimension

def canCompare (t : Taxon) : Bool := t.facts?.any (·.canCompare)

def columnName (t : Taxon) : String := Identifier.safe t.slug

/-- Taxons by their slugs; of several with one slug the last stays. -/
def mapOf (ts : List Taxon) : TaxonMap := SortedMap.ofList (ts.map fun t => (t.slug, t))

end Taxon

end SemanticLayer
