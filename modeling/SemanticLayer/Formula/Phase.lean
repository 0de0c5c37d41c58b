/-!
# Phases of evaluation

A formula is computed in one of the ordered stages of a query; a compound formula lives in the
latest stage of its parts.
-/

namespace SemanticLayer.Formula

inductive Phase where
  /-- A constant, which can be computed anywhere. -/
  | any
  | dimensionDataSource
  | dimension
  | metricPre
  | metricPost
  | blendingProjection
  deriving DecidableEq, Repr, Inhabited

namespace Phase

def all : List Phase :=
  [.any, .dimensionDataSource, .dimension, .metricPre, .metricPost, .blendingProjection]

/-- The place among the stages. -/
def rank : Phase → Nat
  | .any => 0
  | .dimensionDataSource => 1
  | .dimension => 2
  | .metricPre => 3
  | .metricPost => 4
  | .blendingProjection => 5

def name : Phase → String
  | .any => "any"
  | .dimensionDataSource => "dimension_data_source"
  | .dimension => "dimension"
  | .metricPre => "metric_pre"
  | .metricPost => "metric_post"
  | .blendingProjection => "blending_projection"

def isMetric (p : Phase) : Bool := p = .metricPre || p = .metricPost

def isDimension (p : Phase) : Bool := p = .dimension || p = .dimensionDataSource

instance : LE Phase := ⟨fun a b => a.rank ≤ b.rank⟩

instance (a b : Phase) : Decidable (a ≤ b) := inferInstanceAs (Decidable (a.rank ≤ b.rank))

/-- The later of two stages. -/
def latest (a b : Phase) : Phase := if a ≤ b then b else a

/-- The earlier of two stages. -/
def earliest (a b : Phase) : Phase := if a ≤ b then a else b

/-- The latest of several stages. -/
def latestOf (ps : List Phase) : Phase := ps.foldl latest .any

end Phase

/-- The stages from `first` to `last`. -/
structure PhaseRange where
  first : Phase
  last : Phase
  deriving DecidableEq

namespace PhaseRange

def everything : PhaseRange := ⟨.any, .blendingProjection⟩

def upTo (p : Phase) : PhaseRange := ⟨.any, p⟩

def contains (r : PhaseRange) (p : Phase) : Bool := r.first ≤ p && p ≤ r.last

def description (r : PhaseRange) : String :=
  if r.first = .any then "lower or equal than " ++ r.last.name
  else if r.last = .blendingProjection then "greater or equal than " ++ r.first.name
  else "between " ++ r.first.name ++ " and " ++ r.last.name

end PhaseRange

end SemanticLayer.Formula
