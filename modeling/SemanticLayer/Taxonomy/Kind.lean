/-!
# Kinds of taxons
-/

namespace SemanticLayer

inductive TaxonType where
  | dimension
  | metric
  deriving DecidableEq, Repr, Inhabited

def TaxonType.name : TaxonType → String
  | .dimension => "dimension"
  | .metric => "metric"

/-- What the values of a taxon look like. -/
inductive ValidationType where
  | text
  | integer
  | numeric
  | datetime
  | enum
  | percent
  | money
  | url
  | boolean
  | duration
  | variant
  deriving DecidableEq, Repr

namespace ValidationType

def all : List ValidationType :=
  [.text, .integer, .numeric, .datetime, .enum, .percent, .money, .url, .boolean, .duration,
    .variant]

def name : ValidationType → String
  | .text => "text"
  | .integer => "integer"
  | .numeric => "numeric"
  | .datetime => "datetime"
  | .enum => "enum"
  | .percent => "percent"
  | .money => "money"
  | .url => "url"
  | .boolean => "boolean"
  | .duration => "duration"
  | .variant => "variant"

/-- The type of a taxon that declares none. -/
def defaultFor : TaxonType → ValidationType
  | .metric => .numeric
  | .dimension => .text

end ValidationType

end SemanticLayer
